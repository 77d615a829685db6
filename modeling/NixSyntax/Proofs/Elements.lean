/-
Module: NixSyntax.Proofs.Elements
Purpose: Which element of a list each comment between its brackets belongs to.
Main exports: Row.shares, Brackets, Brackets.shares, ReadsRows, Parser.rows_read,
  Parser.list_found, parse_list_comments, minus_gives_comments_up
-/
import NixSyntax.Proofs.Borders
import NixSyntax.Proofs.Places

namespace NixSyntax

/-!
The elements of a list are read one after another, each off its own row of
tokens.  A comment above a row belongs to that row's element.  The minus sign is
the only token that can both begin an element and go on with an expression, and
the comments above it are taken by what stands in front, be it an operand or
the element before.
-/

/-- The tokens of one element. -/
structure Row where
  first : Token
  rest : List Token

namespace Row

/-- All tokens of the row. -/
def tokens (row : Row) : List Token :=
  row.first :: row.rest

/-- The comments of the row but for those above it. -/
def inside (row : Row) : List Comment :=
  row.first.trailing ++ row.rest.flatMap Token.comments

/-- The comments that each row gets, if those in front of the first one are
`above`.  A row that begins with a minus sign leaves the comments above it to the
row in front. -/
def shares : List Comment → List Row → List (List Comment)
  | _, [] => []
  | above, [row] => [above ++ row.inside]
  | above, row :: next :: rows =>
    if next.first.kind = .dash then
      (above ++ row.inside ++ next.first.leading) :: shares [] (next :: rows)
    else (above ++ row.inside) :: shares next.first.leading (next :: rows)

end Row

/-- The tokens of a list with its brackets. -/
structure Brackets where
  opening : Token
  rows : List Row
  closing : Token
  opens : opening.kind = .bracketOpen
  closes : closing.kind = .bracketClose

namespace Brackets

variable (brackets : Brackets)

/-- The tokens between the brackets. -/
def inner : List Token :=
  brackets.rows.flatMap Row.tokens

/-- All tokens of the list. -/
def tokens : List Token :=
  brackets.opening :: (brackets.inner ++ [brackets.closing])

/-- The comments that each row gets.  The first one also gets those behind the
opening bracket on its line. -/
def shares : List (List Comment) :=
  match brackets.rows with
  | [] => []
  | row :: rows => Row.shares (brackets.opening.trailing ++ row.first.leading) (row :: rows)

/-- The comments that no row gets. -/
def remainder : List Comment :=
  match brackets.rows with
  | [] => brackets.opening.trailing ++ brackets.closing.leading
  | _ :: _ => brackets.closing.leading

variable {brackets}

/-- The rows share all that stands above the first token between the brackets. -/
theorem shares_eq {first : Token} {upcoming back : List Token}
    (split : first :: upcoming = brackets.inner ++ brackets.closing :: back) :
    brackets.shares = Row.shares (brackets.opening.trailing ++ first.leading) brackets.rows := by
  obtain ⟨opening, rows, closing, opens, closes⟩ := brackets
  cases rows with
  | nil => rfl
  | cons row rows =>
      obtain ⟨rfl, -⟩ := List.cons.inj split
      rfl

end Brackets

/-- The parser reads expressions one after another, each off its own row. -/
inductive ReadsRows (parser : Parser Expr) : Stream → List Row → List Expr → Prop where
  | nil {source : Stream} : ReadsRows parser source [] []
  | cons {source target : Stream} {row : Row} {rows : List Row} {value : Expr} {values : List Expr}
      (read : parser source = .ok value target)
      (passed : source.bare = row.tokens.map Token.bare ++ target.bare)
      (more : ReadsRows parser target rows values) :
      ReadsRows parser source (row :: rows) (value :: values)

/-- Of the kinds that start an expression only the minus sign follows
expressions. -/
theorem Kind.isFollower_iff {kind : Kind} (start : kind ∈ Kind.expressionStart) :
    kind.isFollower ↔ kind = .dash := by
  revert start
  cases kind <;> decide

/-- Behind a row the comments above the next one, or above the closing bracket, are
lost to it or left. -/
theorem Row.shares_cons {above : List Comment} {row : Row} {rows : List Row}
    {next closing : Token} {upcoming back : List Token} (closes : closing.kind = .bracketClose)
    (starts : ∀ row ∈ rows.head?, row.first.kind ∈ Kind.expressionStart)
    (split : next :: upcoming = rows.flatMap tokens ++ closing :: back) :
    shares above (row :: rows) =
      (above ++ row.inside ++ next.lost) :: shares next.settled.leading rows := by
  cases rows with
  | nil =>
      obtain ⟨rfl, -⟩ := List.cons.inj split
      have kept : next.lost = [] := by rw [Token.lost, closes]; rfl
      rw [kept, List.append_nil]
      rfl
  | cons following rows =>
      obtain ⟨rfl, -⟩ := List.cons.inj split
      have follows := Kind.isFollower_iff (starts following rfl)
      rw [shares, Token.lost, Token.settled]
      by_cases minus : following.first.kind = .dash
      · rw [if_pos minus, if_pos (follows.2 minus), if_pos (follows.2 minus)]
      · rw [if_neg minus, if_neg (mt follows.1 minus), if_neg (mt follows.1 minus),
          List.append_nil]

namespace Parser

open NixSyntax.Stream

variable {fallback : FallbackLevel} {limit levels : Nat} {source target : Stream}

/-- What one element is read off, and which comments it gets. -/
theorem row_read {first : Token} {power : Power} {value : Expr} (ended : source.Ended)
    (stands : source.current = { first with leading := source.current.leading })
    (run : expression (.standard fallback) limit levels power source = .ok value target)
    (more : target.current.kind ≠ .endOfInput) :
    ∃ rest next, source.upcoming = rest ++ next :: target.upcoming ∧
      target.unclaimed = {} ∧ target.current = next.settled ∧
      value.comments.Perm (source.unclaimed.all ++ source.current.leading ++
        Row.inside ⟨first, rest⟩ ++ next.lost) := by
  have placed : source.Stands (first :: source.upcoming) :=
    fun _ => ⟨first, List.suffix_rfl, stands⟩
  have reliable := expression_reliable fallback limit levels
  have behind := (reliable.sound power).behind ended trivial run
  have settled := expression_settles fallback limit levels placed run
  obtain ⟨next, suffix, token⟩ := settled.token (upcoming_ne_nil (behind.ended ended) more)
  have shorter := behind.shorter (reliable.starts run)
  obtain ⟨rest, split⟩ : next :: target.upcoming <:+ source.upcoming := by
    refine (List.suffix_cons_iff.1 suffix).resolve_left fun same => ?_
    rw [length_signs, length_signs, (List.cons.inj same).2] at shorter
    exact lt_irrefl _ shorter
  refine ⟨rest, next, split.symm, settled.claimed, token, ?_⟩
  have paid : (placedLedger (first :: source.upcoming)).Pays source value.comments target :=
    Ledger.expression_balances fallback limit levels power _ _ _ run
  have counted : source.held.Perm (value.comments ++ target.held) :=
    Multiset.coe_eq_coe.1 ((paid placed).2.trans (Multiset.coe_add _ _))
  have before : source.held = source.unclaimed.all ++ source.current.leading ++
      Row.inside ⟨first, rest⟩ ++ next.lost ++ target.held := by
    have trailing : source.current.trailing = first.trailing := by rw [stands]
    have left : target.held = next.settled.comments ++ target.upcoming.flatMap Token.comments := by
      rw [held, settled.claimed, tokens, token]
      rfl
    rw [left, held, tokens, List.flatMap_cons, ← split, List.flatMap_append, List.flatMap_cons,
      next.comments_settled, Token.comments, trailing, Row.inside]
    simp only [List.append_assoc]
  rw [before] at counted
  exact ((List.perm_append_right_iff _).1 counted).symm

/-- An element in front of further ones, or of the closing bracket, is not the last
of all tokens. -/
theorem repeats_solid {expr : ExprParser} {elements : List Expr}
    (repeats : Repeats (element expr) source elements target) :
    source.current.kind ≠ .endOfInput := by
  cases repeats with
  | stop last =>
      obtain ⟨close, -⟩ | ⟨-, _, -, ⟨⟩⟩ := element_ok.1 last
      rw [close]
      decide
  | more first rest =>
      obtain ⟨-, ⟨⟩, -⟩ | ⟨start, -⟩ := element_ok.1 first
      rintro atEnd
      simp [atEnd] at start

/-- The first row begins with a token that an expression starts with. -/
theorem rows_start {rows : List Row} {values : List Expr} {power : Power}
    (reads : ReadsRows (expression (.standard fallback) limit levels power) source rows values) :
    ∀ row ∈ rows.head?, row.first.kind ∈ Kind.expressionStart := by
  cases reads with
  | nil => simp
  | @cons _ target row _ _ _ read passed =>
      have same : source.current.kind = row.first.kind :=
        congrArg (fun tokens : List Token => (tokens.headD source.current).kind) passed
      rintro _ ⟨⟩
      exact same ▸ (expression_reliable fallback limit levels).starts read

/-- The elements up to a closing bracket are read off rows, and each gets the
comments of its own. -/
theorem rows_read {elements : List Expr} {first : Token} (ended : source.Ended)
    (stands : source.current = { first with leading := source.current.leading })
    (repeats : Repeats (element (expression (.standard fallback) limit levels)) source elements
      target) :
    ∃ rows closing, first :: source.upcoming =
        rows.flatMap Row.tokens ++ closing :: target.upcoming ∧
      closing.kind = .bracketClose ∧
      ReadsRows (expression (.standard fallback) limit levels .application) source rows elements ∧
      List.Forall₂ (fun element share => element.comments.Perm share) elements
        (Row.shares (source.unclaimed.all ++ source.current.leading) rows) ∧
      ((rows = [] ∧ target = source) ∨
        (rows ≠ [] ∧ target.unclaimed = {} ∧ target.current = closing)) := by
  induction repeats generalizing first with
  | @stop source target last =>
      obtain ⟨close, -, rfl⟩ | ⟨-, _, -, ⟨⟩⟩ := element_ok.1 last
      refine ⟨[], first, rfl, ?_, .nil, .nil, .inl ⟨rfl, rfl⟩⟩
      rw [stands] at close
      exact close
  | @more source middle target value elements step repeats ih =>
      obtain ⟨-, ⟨⟩, -⟩ | ⟨start, value, read, ⟨⟩⟩ := element_ok.1 step
      obtain ⟨rest, next, split, claimed, current, owned⟩ :=
        row_read ended stands read (repeats_solid repeats)
      have left : middle.current = { next with leading := middle.current.leading } := by
        rw [current, ← next.settled_eq]
      obtain ⟨rows, closing, split', closes, reads, owns, ends⟩ := ih
        (((expression_reliable fallback limit levels).sound _).ended ended trivial read) left
      have passed : source.bare = (Row.tokens ⟨first, rest⟩).map Token.bare ++ middle.bare := by
        rw [bare, bare, tokens, tokens, split, stands, left, Row.tokens]
        simp [Token.bare]
      rw [claimed, current] at owns
      refine ⟨⟨first, rest⟩ :: rows, closing, ?_, closes, .cons read passed reads, ?_,
        .inr ⟨List.cons_ne_nil _ _, ?_⟩⟩
      · rw [split, split', List.flatMap_cons, Row.tokens]
        simp
      · rw [Row.shares_cons closes (rows_start reads) split']
        exact .cons owned owns
      · rcases ends with ⟨rfl, rfl⟩ | ⟨-, ends⟩
        · obtain ⟨rfl, -⟩ := List.cons.inj split'
          rw [current, Token.settled_of_other (by rw [closes]; decide)]
          exact ⟨claimed, rfl⟩
        · exact ends

/-- What the rule for lists reads, and who gets the comments. -/
theorem list_read {elements : List Expr} {inner : List Comment} {opening : Token}
    (ended : source.Ended) (opens : opening.kind = .bracketOpen) (claimed : source.unclaimed = {})
    (stands : source.current = { opening with leading := [] })
    (run : list (expression (.standard fallback) limit levels) source =
      .ok (.bare (.list elements inner)) target) :
    ∃ (brackets : Brackets) (back : List Token) (start : Stream), brackets.opening = opening ∧
      source.upcoming = brackets.inner ++ brackets.closing :: back ∧
      start.tokens = source.upcoming ∧
      ReadsRows (expression (.standard fallback) limit levels .application) start brackets.rows
        elements ∧
      List.Forall₂ (fun element share => element.comments.Perm share) elements brackets.shares ∧
      inner = brackets.remainder := by
  have reliable := expression_reliable fallback limit levels
  have solid : source.current.kind ≠ .endOfInput := by
    rw [stands]
    simp [opens]
  obtain ⟨_, s₁, _, s₂, read, taken, -, same⟩ := list_ok.1 run
  obtain ⟨rfl, rfl⟩ : elements = _ ∧ inner = _ := by simpa [Expr.bare] using same
  obtain ⟨first, rest, split⟩ := List.exists_cons_of_ne_nil (upcoming_ne_nil ended solid)
  have tokens : source.advance.2.tokens = first :: rest := by
    rw [tokens_advance, split, if_neg (List.cons_ne_nil _ _)]
  obtain ⟨current, upcoming⟩ := List.cons.inj tokens
  have unclaimed : source.advance.2.unclaimed.all = opening.trailing := by
    rw [unclaimed_advance, Unclaimed.all_consume, claimed, stands]
    rfl
  have endedThen := (behind_advance ended).ended ended
  have here : source.advance.2.current =
      { first with leading := source.advance.2.current.leading } := by
    rw [current]
  obtain ⟨rows, closing, behind, closes, reads, owns, ends⟩ :=
    rows_read endedThen here (many_repeats (element_shrinks reliable) endedThen read)
  rw [upcoming] at behind
  rw [unclaimed, current] at owns
  obtain ⟨rfl, -⟩ := takeBefore_ok.1 taken
  refine ⟨⟨opening, rows, closing, opens, closes⟩, s₁.upcoming, source.advance.2, rfl,
    split.trans behind, tokens.trans split.symm, reads, ?_, ?_⟩
  · rwa [Brackets.shares_eq behind]
  · rcases ends with ⟨rfl, rfl⟩ | ⟨some, claimed, last⟩
    · obtain ⟨rfl, -⟩ := List.cons.inj behind
      rw [unclaimed, current]
      rfl
    · obtain ⟨row, rows, rfl⟩ := List.exists_cons_of_ne_nil some
      rw [claimed, last]
      rfl

/-! ## The list of a document -/

/-- What goes on with an expression makes something else of it than a list. -/
theorem continuation_list {grammar : Grammar} {power : Power} {left value : Expr}
    {elements : List Expr} {inner : List Comment}
    (run : continuation grammar limit levels power left source = .ok value target)
    (isList : value.form = .list elements inner) : left.form = .list elements inner := by
  induction levels generalizing left source with
  | zero =>
      rcases continuation_ok.1 run with ⟨-, rfl, -⟩ | ⟨_, _, _, _, _, _, _, absurd, _⟩
      · exact isList
      · cases absurd
  | succ levels ih =>
      rcases continuation_ok.1 run with ⟨-, rfl, -⟩ |
        ⟨_, operator, rule, node, s₁, after, s₂, ⟨⟩, -, -, parsed, -, continued⟩
      · exact isList
      · have joined : (node.addAfter after).form = .list elements inner := ih continued
        cases rule with
        | binary =>
            obtain ⟨op, right, -, -, -, rfl⟩ := binary_ok.1 parsed
            cases joined
        | hasAttr =>
            obtain ⟨path, -, rfl⟩ := hasAttr_ok.1 parsed
            cases joined
        | select =>
            obtain ⟨path, -, rfl⟩ := select_ok.1 parsed
            cases joined
        | apply =>
            obtain ⟨arguments, -, rfl⟩ := apply_ok.1 parsed
            cases joined

theorem literal_form (token : Token) (elements : List Expr) (inner : List Comment) :
    token.literal? ≠ some (.list elements inner) := by
  unfold Token.literal?
  split <;> simp

theorem lambda_form {expr : ExprParser} {value : Expr}
    (run : lambda expr source = .ok value target) (elements : List Expr) (inner : List Comment) :
    value.form ≠ .list elements inner := by
  rintro isList
  rcases lambda_ok.1 run with ⟨-, -, named⟩ | ⟨-, taken⟩
  · obtain ⟨-, body, -, rfl⟩ := namedLambda_ok.1 named
    cases isList
  · obtain ⟨_, _, _, _, _, _, _, -, -, -, -, -, rfl⟩ := patternLambda_ok.1 taken
    cases isList

/-- Only these rules can return a list. -/
theorem startRule_list {expr : ExprParser} {rule : StartRule} {value : Expr}
    {elements : List Expr} {inner : List Comment}
    (run : rule.parse expr source = .ok value target) (isList : value.form = .list elements inner) :
    rule ∈ [StartRule.list, .group, .clause] := by
  have set : ∀ {source : Stream} {recursive : Bool},
      attrs expr recursive source ≠ .ok value target := by
    intro source recursive run
    obtain ⟨-, _, _, _, -, -, -, rfl⟩ := attrs_ok.1 run
    cases isList
  cases rule with
  | list | group | clause => simp
  | literal =>
      obtain ⟨_, known, -, rfl⟩ := literal_ok.1 run
      cases isList
      exact absurd known (literal_form _ _ _)
  | name =>
      rcases name_ok.1 run with ⟨-, read⟩ | ⟨-, path, -, rfl⟩
      · exact absurd isList (lambda_form read _ _)
      · cases isList
  | string =>
      obtain ⟨_, _, -, rfl⟩ := string_ok.1 run
      cases isList
  | importing =>
      obtain ⟨_, -, rfl⟩ := importing_ok.1 run
      cases isList
  | unary =>
      rcases unary_ok.1 run with ⟨-, _, -, rfl⟩ | ⟨-, _, -, rfl⟩ <;> cases isList
  | conditional =>
      obtain ⟨_, _, _, _, _, -, -, -, -, -, rfl⟩ := conditional_ok.1 run
      cases isList
  | braces =>
      rcases braces_ok.1 run with ⟨-, read⟩ | ⟨-, read⟩
      · exact absurd isList (lambda_form read _ _)
      · exact absurd read set
  | recursiveAttrs =>
      obtain ⟨-, read⟩ := recursiveAttrs_ok.1 run
      exact absurd read set
  | letIn =>
      obtain ⟨-, -, _, _, _, _, -, -, -, rfl⟩ := letIn_ok.1 run
      cases isList
  | lambda => exact absurd isList (lambda_form run _ _)

/-- Where an expression is a list, the rule for lists has read it, possibly in
parentheses and behind clauses. -/
theorem list_found {all : List Token} {power : Power} {value : Expr} {elements : List Expr}
    {inner : List Comment} (ended : source.Ended) (stands : source.Stands all)
    (run : expression (.standard fallback) limit levels power source = .ok value target)
    (isList : value.form = .list elements inner) :
    ∃ fewer opening start stop, opening.kind = .bracketOpen ∧ opening :: start.upcoming <:+ all ∧
      start.Ended ∧ start.unclaimed = {} ∧ start.current = { opening with leading := [] } ∧
      list (expression (.standard fallback) limit fewer) start =
        .ok (.bare (.list elements inner)) stop := by
  induction levels generalizing source target power value with
  | zero => exact absurd run expression_zero_ok
  | succ levels ih =>
      obtain ⟨before, s₁, rule, first, s₂, after, s₃, taken, start, parsed, -, continued⟩ :=
        expression_succ_ok.1 run
      have whole : ((first.addBefore before).addAfter after).form = .list elements inner :=
        continuation_list continued isList
      have found : first.form = .list elements inner := whole
      have placed : s₁.Stands all := stands_of_pays stands (Ledger.takeBefore_balances _ _ _ taken)
      have endedThen : s₁.Ended := by
        rwa [Stream.Ended, ← takeBefore_signs taken]
      have balances : ∀ power, (placedLedger all).Balances Expr.comments
          (expression (.standard fallback) limit levels power) :=
        Ledger.expression_balances fallback limit levels
      have member := startRule_list parsed found
      simp only [List.mem_cons, List.not_mem_nil, or_false] at member
      rcases member with rfl | rfl | rfl
      · have opens : s₁.current.kind = .bracketOpen := standardStart_opens start
        obtain ⟨opening, suffix, here⟩ := placed
          (upcoming_ne_nil endedThen (by rw [opens]; decide))
        obtain ⟨-, rfl⟩ := takeBefore_ok.1 taken
        rw [here] at opens
        refine ⟨levels, opening, _, s₂, opens, suffix, endedThen, rfl, here, ?_⟩
        obtain ⟨_, _, _, _, -, -, -, rfl⟩ := list_ok.1 parsed
        cases found
        exact parsed
      · obtain ⟨s₄, read, -, rfl⟩ := group_ok.1 parsed
        exact ih ((behind_advance endedThen).ended endedThen) placed.fresh_advance.stands read found
      · obtain ⟨subject, s₄, comments, s₅, body, readSubject, -, claimed, readBody, rfl⟩ :=
          clause_ok.1 parsed
        have reliable := expression_reliable fallback limit levels
        have endedSubject := (reliable.sound _).ended ((behind_advance endedThen).ended endedThen)
          trivial readSubject
        have endedBody : s₅.Ended := by
          rw [Stream.Ended, ← takeUnclaimed_signs claimed]
          exact (behind_advance endedSubject).ended endedSubject
        exact ih endedBody (clause_stands balances placed readSubject claimed) readBody found

end Parser

/-! ## Whole texts -/

/-- Where a text is a list, its elements are read off rows of tokens between the
brackets, and every comment between the brackets belongs to the element of one
row, or else to the list.  The comments above a row belong to that row's element,
unless the row begins with a minus sign and is not the first one. -/
theorem parse_list_comments {options : Options} {source : String} {document : Document}
    {elements : List Expr} {inner : List Comment} (parsed : parse options source = .ok document)
    (isList : document.value.form = .list elements inner) :
    ∃ (tokens front back : List Token) (brackets : Brackets) (levels : Nat) (start : Stream),
      tokenize options.file source = .ok tokens ∧
      tokens = front ++ (brackets.tokens ++ back) ∧
      start.tokens = brackets.inner ++ brackets.closing :: back ∧
      ReadsRows
        (Parser.expression (.standard options.fallback) options.maxDepth levels .application) start
        brackets.rows elements ∧
      List.Forall₂ (fun element share => element.comments.Perm share) elements brackets.shares ∧
      inner = brackets.remainder := by
  obtain ⟨tokens, split, read⟩ := parse_ok.1 parsed
  obtain ⟨target, run⟩ := parseTokens_ok.1 read
  obtain ⟨before, s₁, value, s₂, after, detached, readValue, -, -, rfl⟩ := Parser.document_ok.1 run
  obtain ⟨-, same⟩ := Parser.takeDetached_ok.1 detached
  have whole : (Stream.ofTokens options.file tokens).tokens <:+ tokens := by
    rw [Stream.tokens_tokenize split]
  have placed : s₁.Stands tokens := by
    rw [← same]
    exact fun _ => ⟨_, whole, rfl⟩
  have ended : s₁.Ended := by
    rw [← same]
    exact Stream.ofTokens_ended options.file tokens
  obtain ⟨levels, opening, s₃, s₄, opens, ⟨front, suffix⟩, endedThen, claimed, here, list⟩ :=
    Parser.list_found ended placed readValue isList
  obtain ⟨brackets, back, start, rfl, rest, tokensThen, reads, owns, left⟩ :=
    Parser.list_read endedThen opens claimed here list
  refine ⟨tokens, front, back, brackets, levels, start, split, ?_, tokensThen.trans rest, reads,
    owns, left⟩
  rw [← suffix, rest, Brackets.tokens]
  simp

/-- A comment behind the opening bracket, one on the line of an element, one above
an element, one above an element that begins with a minus sign, and one above the
closing bracket. -/
theorem parse_list_comments_each_place :
    ∃ document elements inner,
      parse {} "[ # 0\na # 1\n# 2\nb\n# 3\n-c\n# 4\n]" = .ok document ∧
      document.value.form = .list elements inner ∧
      elements.map Expr.comments =
        [[⟨.line, " 0"⟩, ⟨.line, " 1"⟩], [⟨.line, " 2"⟩, ⟨.line, " 3"⟩], []] ∧
      inner = [⟨.line, " 4"⟩] ∧
      ∃ (tokens front back : List Token) (brackets : Brackets) (levels : Nat) (start : Stream),
        tokenize defaultFile "[ # 0\na # 1\n# 2\nb\n# 3\n-c\n# 4\n]" = .ok tokens ∧
        tokens = front ++ (brackets.tokens ++ back) ∧
        start.tokens = brackets.inner ++ brackets.closing :: back ∧
        ReadsRows (Parser.expression (.standard .lowest) 128 levels .application) start
          brackets.rows elements ∧
        List.Forall₂ (fun element share => element.comments.Perm share) elements
          brackets.shares ∧
        inner = brackets.remainder := by
  have run : ∃ document elements inner,
      parse {} "[ # 0\na # 1\n# 2\nb\n# 3\n-c\n# 4\n]" = .ok document ∧
      document.value.form = .list elements inner ∧
      elements.map Expr.comments =
        [[⟨.line, " 0"⟩, ⟨.line, " 1"⟩], [⟨.line, " 2"⟩, ⟨.line, " 3"⟩], []] ∧
      inner = [⟨.line, " 4"⟩] :=
    ⟨_, _, _, by cbv, rfl, by cbv, rfl⟩
  obtain ⟨document, elements, inner, parsed, isList, each, left⟩ := run
  exact ⟨document, elements, inner, parsed, isList, each, left, parse_list_comments parsed isList⟩

/-- The comment above the second element of this list is not found in that element
but in the first one, because a minus sign can also go on with an expression. -/
theorem minus_gives_comments_up :
    ∃ tokens document opening first minus rest left right,
      tokenize defaultFile "[ a\n# c\n-b ]" = .ok tokens ∧
      tokens = opening :: first :: minus :: rest ∧
      minus.kind = .dash ∧ minus.leading = [⟨.line, " c"⟩] ∧
      parse {} "[ a\n# c\n-b ]" = .ok document ∧
      document.value.form = .list [left, right] [] ∧
      left.form = .name [.name "a"] ∧ left.comments = [⟨.line, " c"⟩] ∧
      right.comments = [] :=
  ⟨_, _, _, _, _, _, _, _, by cbv, rfl, rfl, rfl, by cbv, rfl, rfl, by cbv, by cbv⟩

end NixSyntax
