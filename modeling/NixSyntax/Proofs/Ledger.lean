/-
Module: NixSyntax.Proofs.Ledger
Purpose: Every comment that leaves the stream is in what the parser returns.
Main exports: Stream.held, Ledger, Ledger.Pays, Ledger.Balances, Ledger.expression_balances,
  Ledger.document_pays
-/
import Mathlib.Algebra.Group.Defs
import NixSyntax.Proofs.Inversion
import NixSyntax.Tree.Comments

namespace NixSyntax

/-!
A comment is on a token, or unclaimed, or in a result.  The first two make up
what a stream holds, and a run pays for what it takes out of the stream by what
it returns.

How closely the payment is watched is left open: a ledger counts comments in
some additive monoid.  In the free one the count is the list itself, so the
order counts; in a commutative one only the comments do.  All rules but two
pay in order.  A clause and an `inherit` put a comment that was read late in
front of one that was read early, so a ledger must either count without order
or not admit the streams on which those two rules run.
-/

/-- The comments next to a token. -/
def Token.comments (token : Token) : List Comment :=
  token.leading ++ token.trailing

/-- The comments that a stream holds: unclaimed ones first, then those of the
tokens that are still to be read. -/
def Stream.held (stream : Stream) : List Comment :=
  stream.unclaimed.all ++ stream.tokens.flatMap Token.comments

/-- The kinds that start a rule which does not keep comments in order. -/
def Kind.reorders : List Kind :=
  [.kwWith, .kwAssert, .kwInherit]

/-- A count of comments, and the streams for which it is kept. -/
structure Ledger (M : Type) [AddMonoid M] where
  count : List Comment → M
  count_nil : count [] = 0
  count_append : ∀ front back, count (front ++ back) = count front + count back
  Admits : Stream → Prop
  admits_advance : ∀ {stream : Stream}, Admits stream → Admits stream.advance.2
  admits_trim : ∀ {stream : Stream} (leading : List Comment) (unclaimed : Unclaimed),
    Admits stream →
      Admits { stream with current := { stream.current with leading }, unclaimed }
  commutes : ∀ {stream : Stream}, Admits stream → stream.current.kind ∈ Kind.reorders →
    ∀ x y : M, x + y = y + x

namespace Ledger

variable {M : Type} [AddMonoid M] (ledger : Ledger M)

/-- On the way from `source` to `target` the comments `paid` are taken out of
the stream, and no others. -/
def Pays (source : Stream) (paid : List Comment) (target : Stream) : Prop :=
  ledger.Admits source → ledger.Admits target ∧
    ledger.count source.held = ledger.count paid + ledger.count target.held

/-- Every successful run pays with the comments of its result. -/
def Balances {α : Type} (out : α → List Comment) (parser : Parser α) : Prop :=
  ∀ source value target, parser source = .ok value target →
    ledger.Pays source (out value) target

/-- The same for a run that starts with comments in hand, which were taken out
of the stream since `origin`. -/
def Extends {α : Type} (held : List Comment) (out : α → List Comment) (parser : Parser α) :
    Prop :=
  ∀ origin source value target, ledger.Pays origin held source →
    parser source = .ok value target → ledger.Pays origin (out value) target

variable {ledger}

/-! ## Payments -/

theorem Pays.refl (stream : Stream) : ledger.Pays stream [] stream := by
  intro admitted
  exact ⟨admitted, by rw [ledger.count_nil, zero_add]⟩

theorem Pays.trans {source middle target : Stream} {first second : List Comment}
    (before : ledger.Pays source first middle) (after : ledger.Pays middle second target) :
    ledger.Pays source (first ++ second) target := by
  intro admitted
  obtain ⟨admittedMiddle, beforeEq⟩ := before admitted
  obtain ⟨admittedTarget, afterEq⟩ := after admittedMiddle
  exact ⟨admittedTarget, by rw [beforeEq, afterEq, ledger.count_append, add_assoc]⟩

/-- A step that leaves an admitted stream and splits what the old one held. -/
theorem Pays.of_held {source target : Stream} {paid : List Comment}
    (admits : ledger.Admits source → ledger.Admits target)
    (split : source.held = paid ++ target.held) : ledger.Pays source paid target := by
  intro admitted
  exact ⟨admits admitted, by rw [split, ledger.count_append]⟩

/-- Where counting is commutative, the count of a list does not depend on its
order. -/
theorem count_perm (commutes : ∀ x y : M, x + y = y + x) {first second : List Comment}
    (same : first.Perm second) : ledger.count first = ledger.count second := by
  induction same with
  | nil => rfl
  | cons comment _ ih =>
      rw [← List.singleton_append, ledger.count_append, ih, ← ledger.count_append,
        List.singleton_append]
  | swap first second rest =>
      have split (a b : Comment) :
          ledger.count (a :: b :: rest) =
            ledger.count [a] + ledger.count [b] + ledger.count rest := by
        rw [← ledger.count_append, ← ledger.count_append]
        rfl
      rw [split, split, commutes (ledger.count [second])]
  | trans _ _ first second => exact first.trans second

theorem Pays.reorder {source target : Stream} {paid other : List Comment}
    (pays : ledger.Pays source paid target) (start : source.current.kind ∈ Kind.reorders)
    (same : paid.Perm other) : ledger.Pays source other target := by
  intro admitted
  obtain ⟨admittedTarget, split⟩ := pays admitted
  rw [count_perm (ledger.commutes admitted start) same] at split
  exact ⟨admittedTarget, split⟩

end Ledger

/-! ## Comments of trees -/

attribute [local simp] Form.comments Segment.comments StringPart.comments Binding.comments
  Param.comments Expr.allComments Expr.optionComments

@[simp] theorem Expr.comments_bare (form : Form) : (Expr.bare form).comments = form.comments := by
  simp [Expr.bare, Expr.comments, Clause.comments]

@[simp] theorem Expr.comments_addBefore (value : Expr) (comments : List Comment) :
    (value.addBefore comments).comments = comments ++ value.comments := by
  cases value
  simp [Expr.addBefore, Expr.comments]

@[simp] theorem Expr.comments_addAfter (value : Expr) (comments : List Comment) :
    (value.addAfter comments).comments = value.comments ++ comments := by
  cases value
  simp [Expr.addAfter, Expr.comments]

/-- A clause goes between the comments before an expression and all others. -/
theorem Expr.comments_addClause (value : Expr) (clause : Clause) :
    (clause.subject.comments ++ value.comments).Perm (value.addClause clause).comments := by
  cases value
  cases clause
  simp only [Expr.addClause, Expr.comments, Clause.comments, ← List.append_assoc]
  refine List.Perm.append_right _ (List.Perm.append_right _ (List.Perm.append_right _ ?_))
  exact List.perm_append_comm

theorem Segment.comments_cons (segment : Segment) (rest : List Segment) :
    Segment.comments (segment :: rest) = Segment.comments [segment] ++ Segment.comments rest := by
  cases segment <;> simp

theorem StringPart.comments_cons (part : StringPart) (rest : List StringPart) :
    StringPart.comments (part :: rest) =
      StringPart.comments [part] ++ StringPart.comments rest := by
  cases part <;> simp

theorem Binding.comments_cons (entry : Binding) (rest : List Binding) :
    Binding.comments (entry :: rest) = Binding.comments [entry] ++ Binding.comments rest := by
  cases entry <;> simp

theorem Param.comments_cons (param : Param) (rest : List Param) :
    Param.comments (param :: rest) = Param.comments [param] ++ Param.comments rest := by
  cases param
  simp

theorem Expr.allComments_cons (value : Expr) (rest : List Expr) :
    Expr.allComments (value :: rest) = Expr.allComments [value] ++ Expr.allComments rest := by
  simp

/-- An expression of one token has no place for a comment inside. -/
theorem Token.comments_literal {token : Token} {form : Form}
    (known : token.literal? = some form) : form.comments = [] := by
  unfold Token.literal? at known
  split at known
  · obtain ⟨_, _, rfl⟩ := Option.map_eq_some_iff.1 known
    rfl
  · obtain ⟨_, _, rfl⟩ := Option.map_eq_some_iff.1 known
    rfl
  all_goals cases known
  all_goals rfl

/-! ## Steps -/

theorem Unclaimed.all_consume (unclaimed : Unclaimed) (token : Token) :
    (unclaimed.consume token).1.all = unclaimed.all ++ token.comments := by
  unfold Unclaimed.consume Token.comments
  split <;> simp [Unclaimed.all]

/-- Reading a token moves its comments and takes none. -/
theorem Stream.held_advance (stream : Stream) : stream.advance.2.held = stream.held := by
  have spent : (stream.unclaimed.consume stream.current).2.comments = [] := by
    unfold Unclaimed.consume Token.comments
    split <;> rfl
  unfold Stream.advance Stream.held Stream.tokens
  cases stream.upcoming <;> simp [Unclaimed.all_consume, spent]

namespace Ledger

open NixSyntax.Parser

variable {M : Type} [AddMonoid M] {ledger : Ledger M} {expr : ExprParser}

theorem pays_advance (stream : Stream) : ledger.Pays stream [] stream.advance.2 :=
  Pays.of_held ledger.admits_advance (by rw [stream.held_advance]; rfl)

theorem takeBefore_balances : ledger.Balances id takeBefore := by
  intro source comments target run
  obtain ⟨rfl, rfl⟩ := takeBefore_ok.1 run
  refine Pays.of_held (ledger.admits_trim _ _) ?_
  simp [Stream.held, Stream.tokens, Token.comments, Unclaimed.all]

theorem takeUnclaimed_balances : ledger.Balances id takeUnclaimed := by
  intro source comments target run
  obtain ⟨rfl, rfl⟩ := takeUnclaimed_ok.1 run
  refine Pays.of_held (ledger.admits_trim source.current.leading _) ?_
  simp [Stream.held, Stream.tokens, Unclaimed.all]

theorem takeAfter_balances : ledger.Balances id takeAfter := by
  intro source comments target run
  rw [takeAfter_eq] at run
  split at run
  · exact takeBefore_balances _ _ _ run
  · exact takeUnclaimed_balances _ _ _ run

/-- A header can be taken in order only before anything was read. -/
theorem pays_takeDetached {source target : Stream} {comments : List Comment}
    (fresh : source.unclaimed = {}) (run : takeDetached source = .ok comments target) :
    ledger.Pays source comments target := by
  obtain ⟨rfl, rfl⟩ := takeDetached_ok.1 run
  refine Pays.of_held (ledger.admits_trim _ source.unclaimed) ?_
  simp [Stream.held, Stream.tokens, Token.comments, Unclaimed.all, fresh,
    ← List.append_assoc, List.take_append_drop]

/-- Steps that balance, repeated, balance.  Nothing is asked of the bound: a
repetition that it cut short would have paid for all it took. -/
theorem many_balances {α : Type} {step : Parser (Option α)} {out : List α → List Comment}
    (nil : out [] = []) (cons : ∀ item rest, out (item :: rest) = out [item] ++ out rest)
    (balances : ledger.Balances (fun item => out item.toList) step) :
    ledger.Balances out (many step) := by
  intro source items target run
  obtain ⟨stream, middle, got, repeated⟩ := bind_ok.1 run
  obtain ⟨rfl, rfl⟩ := get_ok.1 got
  clear run got
  generalize source.current :: source.upcoming = bound at repeated
  induction bound generalizing source items with
  | nil =>
      obtain ⟨rfl, rfl⟩ := pure_ok.1 repeated
      rw [nil]
      exact Pays.refl source
  | cons token bound ih =>
      rcases manyWithin_cons_ok.1 repeated with
        ⟨stepped, rfl⟩ | ⟨item, middle, rest, stepped, others, rfl⟩
      · exact balances _ _ _ stepped
      · rw [cons]
        exact (balances _ _ _ stepped).trans (ih _ _ others)

/-! ## Strings and attribute paths -/

section Rules

variable (nested : ∀ power, ledger.Balances Expr.comments (expr power))

include nested

theorem interpolated_balances : ledger.Balances Expr.comments (interpolated expr) := by
  intro source value target run
  obtain ⟨_, s₁, read, _, rfl⟩ := interpolated_ok.1 run
  simpa using (pays_advance source).trans ((nested _ _ _ _ read).trans (pays_advance s₁))

theorem stringPart_balances (close : Kind) :
    ledger.Balances (fun part => StringPart.comments part.toList) (stringPart expr close) := by
  intro source part target run
  rcases stringPart_ok.1 run with ⟨_, rfl, rfl⟩ | ⟨value, read, rfl⟩ | ⟨_, _, _, rfl, rfl⟩
  · simpa using pays_advance source
  · simpa using interpolated_balances nested _ _ _ read
  · exact Pays.refl source

theorem stringLiteral_balances :
    ledger.Balances (fun result => StringPart.comments result.2) (stringLiteral expr) := by
  rintro source ⟨indented, parts⟩ target run
  obtain ⟨_, s₁, read, rfl, rfl⟩ := stringLiteral_ok.1 run
  have paid := many_balances rfl StringPart.comments_cons (stringPart_balances nested _)
    _ _ _ read
  simpa using (pays_advance source).trans (paid.trans (pays_advance s₁))

theorem segment_balances :
    ledger.Balances (fun found => Segment.comments [found]) (segment expr) := by
  intro source found target run
  rcases segment_ok.1 run with ⟨_, rfl, rfl⟩ | ⟨value, read, rfl⟩ | ⟨_, _, parts, read, rfl⟩
  · simpa using pays_advance source
  · simpa using interpolated_balances nested _ _ _ read
  · simpa using stringLiteral_balances nested _ _ _ read

theorem attrPath_balances : ledger.Balances Segment.comments (attrPath expr) := by
  intro source path target run
  obtain ⟨first, s₁, others, readFirst, readOthers, rfl⟩ := attrPath_ok.1 run
  have dotted : ledger.Balances (fun found => Segment.comments found.toList)
      (dottedSegment expr) := by
    intro source found target run
    rcases dottedSegment_ok.1 run with ⟨_, found, read, rfl⟩ | ⟨_, rfl, rfl⟩
    · exact (pays_advance source).trans (segment_balances nested _ _ _ read)
    · exact Pays.refl source
  rw [Segment.comments_cons]
  exact (segment_balances nested _ _ _ readFirst).trans
    (many_balances rfl Segment.comments_cons dotted _ _ _ readOthers)

/-! ## Entries of sets and of `let` -/

theorem assignment_extends (comments : List Comment) :
    ledger.Extends comments (fun entry => Binding.comments [entry])
      (assignment expr comments) := by
  intro origin source entry target held run
  obtain ⟨path, s₁, value, s₂, after, readPath, _, readValue, _, taken, rfl⟩ :=
    assignment_ok.1 run
  have paid := held.trans <| (attrPath_balances nested _ _ _ readPath).trans <|
    (pays_advance s₁).trans <| (nested _ _ _ _ readValue).trans <|
    (pays_advance s₂).trans (takeUnclaimed_balances _ _ _ taken)
  simpa using paid

theorem inheritSource_balances :
    ledger.Balances Expr.optionComments (inheritSource expr) := by
  intro source origin target run
  rcases inheritSource_ok.1 run with ⟨_, value, s₁, read, _, rfl, rfl⟩ | ⟨_, rfl, rfl⟩
  · simpa using
      (pays_advance source).trans ((nested _ _ _ _ read).trans (pays_advance s₁))
  · exact Pays.refl source

/-- The comments behind the semicolon go in front of those of the names. -/
theorem inheritance_extends (comments : List Comment) :
    ledger.Extends comments (fun entry => Binding.comments [entry])
      (inheritance expr comments) := by
  intro origin source entry target held run
  obtain ⟨keyword, found, s₁, first, s₂, others, s₃, after, readSource, readFirst, readOthers,
    taken, rfl⟩ := inheritance_ok.1 run
  have name : ledger.Balances (fun found => Segment.comments found.toList)
      (inheritedName expr) := by
    intro source found target run
    rcases inheritedName_ok.1 run with ⟨_, rfl, rfl⟩ | ⟨_, found, read, rfl⟩
    · exact Pays.refl source
    · exact segment_balances nested _ _ _ read
  have paid := (pays_advance source).trans <|
    (inheritSource_balances nested _ _ _ readSource).trans <|
    (segment_balances nested _ _ _ readFirst).trans <|
    (many_balances rfl Segment.comments_cons name _ _ _ readOthers).trans <|
    (pays_advance s₃).trans (takeUnclaimed_balances _ _ _ taken)
  have reordered : ledger.Pays source
      (after ++ Expr.optionComments found ++ Segment.comments (first :: others)) target := by
    refine paid.reorder (by simp [keyword, Kind.reorders]) ?_
    have rotated : (Expr.optionComments found ++ Segment.comments (first :: others) ++ after).Perm
        (after ++ (Expr.optionComments found ++ Segment.comments (first :: others))) :=
      List.perm_append_comm
    rw [Segment.comments_cons] at rotated ⊢
    simpa using rotated
  simpa using held.trans reordered

theorem binding_balances (close : Kind) :
    ledger.Balances (fun entry => Binding.comments entry.toList) (binding expr close) := by
  intro source entry target run
  rcases binding_ok.1 run with
    ⟨_, rfl, rfl⟩ | ⟨_, _, comments, s₁, found, taken, ⟨_, read⟩ | ⟨_, read⟩, rfl⟩
  · exact Pays.refl source
  · exact inheritance_extends nested _ _ _ _ _ (takeBefore_balances _ _ _ taken) read
  · exact assignment_extends nested _ _ _ _ _ (takeBefore_balances _ _ _ taken) read

theorem bindings_balances (close : Kind) :
    ledger.Balances (fun result => Binding.comments result.1 ++ result.2)
      (bindings expr close) := by
  rintro source ⟨entries, inner⟩ target run
  obtain ⟨s₁, read, taken⟩ := bindings_ok.1 run
  exact (many_balances rfl Binding.comments_cons (binding_balances nested close)
    _ _ _ read).trans (takeBefore_balances _ _ _ taken)

theorem attrs_balances (recursive : Bool) :
    ledger.Balances Expr.comments (attrs expr recursive) := by
  intro source value target run
  obtain ⟨_, entries, inner, s₁, read, _, rfl, rfl⟩ := attrs_ok.1 run
  simpa using
    (pays_advance source).trans ((bindings_balances nested _ _ _ _ read).trans (pays_advance s₁))

theorem recursiveAttrs_balances : ledger.Balances Expr.comments (recursiveAttrs expr) := by
  intro source value target run
  obtain ⟨_, read⟩ := recursiveAttrs_ok.1 run
  exact (pays_advance source).trans (attrs_balances nested _ _ _ _ read)

theorem letIn_balances : ledger.Balances Expr.comments (letIn expr) := by
  intro source value target run
  obtain ⟨_, _, entries, inner, s₁, body, readEntries, _, readBody, rfl⟩ := letIn_ok.1 run
  have paid := (pays_advance source).trans <|
    (bindings_balances nested _ _ _ _ readEntries).trans <|
    (pays_advance s₁).trans (nested _ _ _ _ readBody)
  simpa using paid

/-! ## Functions -/

theorem paramDefault_balances : ledger.Balances Expr.optionComments (paramDefault expr) := by
  intro source default target run
  rcases paramDefault_ok.1 run with ⟨_, value, read, rfl⟩ | ⟨_, rfl, rfl⟩
  · exact (pays_advance source).trans (nested _ _ _ _ read)
  · exact Pays.refl source

theorem param_balances : ledger.Balances (fun found => Param.comments [found]) (param expr) := by
  intro source found target run
  obtain ⟨before, s₁, default, s₂, s₃, after, taken, _, readDefault, ended, claimed, rfl⟩ :=
    param_ok.1 run
  have separator : ledger.Pays s₂ [] s₃ := by
    rcases ended with ⟨_, rfl⟩ | ⟨_, rfl⟩
    · exact pays_advance s₂
    · exact Pays.refl s₂
  have paid := (takeBefore_balances _ _ _ taken).trans <| (pays_advance s₁).trans <|
    (paramDefault_balances nested _ _ _ readDefault).trans <|
    separator.trans (takeUnclaimed_balances _ _ _ claimed)
  simpa using paid

theorem pattern_balances :
    ledger.Balances (fun found => Param.comments found.params ++ found.inner) (pattern expr) := by
  intro source found target run
  obtain ⟨_, params, s₁, isOpen, s₂, inner, s₃, read, skipped, taken, _, rfl, rfl⟩ :=
    pattern_ok.1 run
  have next : ledger.Balances (fun found => Param.comments found.toList) (nextParam expr) := by
    intro source found target run
    rcases nextParam_ok.1 run with ⟨_, rfl, rfl⟩ | ⟨_, found, read, rfl⟩
    · exact Pays.refl source
    · exact param_balances nested _ _ _ read
  have ellipsis : ledger.Pays s₁ [] s₂ := by
    rcases skip_ok.1 skipped with ⟨_, _, rfl⟩ | ⟨_, _, rfl⟩
    · exact pays_advance s₁
    · exact Pays.refl s₁
  have paid := (pays_advance source).trans <|
    (many_balances rfl Param.comments_cons next _ _ _ read).trans <|
    ellipsis.trans <| (takeBefore_balances _ _ _ taken).trans (pays_advance s₃)
  simpa using paid

theorem patternLambda_balances : ledger.Balances Expr.comments (patternLambda expr) := by
  intro source value target run
  obtain ⟨given, s₁, found, s₂, whole, s₃, body, readGiven, readPattern, readWhole, _, readBody,
    rfl⟩ := patternLambda_ok.1 run
  have nameBefore : ledger.Pays source [] s₁ := by
    rcases wholeBefore_ok.1 readGiven with ⟨_, _, rfl, _⟩ | ⟨_, _, rfl⟩
    · exact (pays_advance source).trans (pays_advance _)
    · exact Pays.refl source
  have nameAfter : ledger.Pays s₂ [] s₃ := by
    rcases wholeAfter_ok.1 readWhole with ⟨_, _, _, rfl, _⟩ | ⟨_, _, rfl⟩
    · exact (pays_advance s₂).trans (pays_advance _)
    · exact Pays.refl s₂
  have paid := nameBefore.trans <| (pattern_balances nested _ _ _ readPattern).trans <|
    nameAfter.trans <| (pays_advance s₃).trans (nested _ _ _ _ readBody)
  simpa using paid

theorem lambda_balances : ledger.Balances Expr.comments (lambda expr) := by
  intro source value target run
  rcases lambda_ok.1 run with ⟨_, _, read⟩ | ⟨_, read⟩
  · obtain ⟨_, body, readBody, rfl⟩ := namedLambda_ok.1 read
    simpa using
      (pays_advance source).trans ((pays_advance _).trans (nested _ _ _ _ readBody))
  · exact patternLambda_balances nested _ _ _ read

theorem name_balances : ledger.Balances Expr.comments (name expr) := by
  intro source value target run
  rcases name_ok.1 run with ⟨_, read⟩ | ⟨_, path, read, rfl⟩
  · exact lambda_balances nested _ _ _ read
  · simpa using attrPath_balances nested _ _ _ read

theorem braces_balances : ledger.Balances Expr.comments (braces expr) := by
  intro source value target run
  rcases braces_ok.1 run with ⟨_, read⟩ | ⟨_, read⟩
  · exact lambda_balances nested _ _ _ read
  · exact attrs_balances nested _ _ _ _ read

/-! ## Start rules -/

omit nested in
theorem literal_balances : ledger.Balances Expr.comments literal := by
  intro source value target run
  obtain ⟨form, known, rfl, rfl⟩ := literal_ok.1 run
  simpa [Token.comments_literal known] using pays_advance source

theorem elements_balances : ledger.Balances Expr.allComments (many (element expr)) := by
  apply many_balances rfl Expr.allComments_cons
  intro source item target run
  rcases element_ok.1 run with ⟨_, rfl, rfl⟩ | ⟨_, value, read, rfl⟩
  · exact Pays.refl source
  · simpa using nested _ _ _ _ read

theorem list_balances : ledger.Balances Expr.comments (list expr) := by
  intro source value target run
  obtain ⟨elements, s₁, inner, s₂, read, taken, rfl, rfl⟩ := list_ok.1 run
  have paid := (pays_advance source).trans <|
    (elements_balances nested _ _ _ read).trans <|
    (takeBefore_balances _ _ _ taken).trans (pays_advance s₂)
  simpa using paid

theorem unary_balances : ledger.Balances Expr.comments (unary expr) := by
  intro source value target run
  rcases unary_ok.1 run with ⟨_, operand, read, rfl⟩ | ⟨_, operand, read, rfl⟩
  all_goals
    simpa using (pays_advance source).trans (nested _ _ _ _ read)

theorem conditional_balances : ledger.Balances Expr.comments (conditional expr) := by
  intro source value target run
  obtain ⟨condition, s₁, yes, s₂, no, readCondition, _, readYes, _, readNo, rfl⟩ :=
    conditional_ok.1 run
  have paid := (pays_advance source).trans <| (nested _ _ _ _ readCondition).trans <|
    (pays_advance s₁).trans <| (nested _ _ _ _ readYes).trans <|
    (pays_advance s₂).trans (nested _ _ _ _ readNo)
  simpa using paid

/-- The comments of a clause go behind those before its body. -/
theorem clause_pays {source target : Stream} {value : Expr}
    (start : source.current.kind ∈ Kind.reorders)
    (run : clause expr source = .ok value target) :
    ledger.Pays source value.comments target := by
  obtain ⟨subject, s₁, after, s₂, body, readSubject, _, taken, readBody, rfl⟩ :=
    clause_ok.1 run
  have paid := (pays_advance source).trans <| (nested _ _ _ _ readSubject).trans <|
    (pays_advance s₁).trans <| (takeUnclaimed_balances _ _ _ taken).trans
      (nested _ _ _ _ readBody)
  refine paid.reorder start ?_
  simpa using body.comments_addClause
    { kind := if source.current.kind = .kwAssert then .assertion else .scope
      subject := subject.addAfter after }

/-- Every start rule balances where the language applies it. -/
theorem startRule_pays {source target : Stream} {value : Expr} {rule : StartRule}
    (start : Grammar.standardStart source.current.kind = some rule)
    (run : rule.parse expr source = .ok value target) :
    ledger.Pays source value.comments target := by
  cases rule with
  | literal => exact literal_balances _ _ _ run
  | name => exact name_balances nested _ _ _ run
  | string =>
      obtain ⟨indented, parts, read, rfl⟩ := string_ok.1 run
      simpa using stringLiteral_balances nested _ _ _ read
  | group =>
      obtain ⟨s₁, read, _, rfl⟩ := group_ok.1 run
      simpa using (pays_advance source).trans ((nested _ _ _ _ read).trans (pays_advance s₁))
  | list => exact list_balances nested _ _ _ run
  | importing =>
      obtain ⟨subject, read, rfl⟩ := importing_ok.1 run
      simpa using (pays_advance source).trans (nested _ _ _ _ read)
  | unary => exact unary_balances nested _ _ _ run
  | conditional => exact conditional_balances nested _ _ _ run
  | clause =>
      have opens : source.current.kind ∈ [Kind.kwWith, .kwAssert] := standardStart_opens start
      exact clause_pays nested (List.mem_append_left [Kind.kwInherit] opens) run
  | braces => exact braces_balances nested _ _ _ run
  | recursiveAttrs => exact recursiveAttrs_balances nested _ _ _ run
  | letIn => exact letIn_balances nested _ _ _ run
  | lambda => exact lambda_balances nested _ _ _ run

/-! ## Join rules -/

theorem joinRule_extends (grammar : Grammar) (left : Expr) (power : Power) (rule : JoinRule) :
    ledger.Extends left.comments Expr.comments (rule.parse grammar expr left power) := by
  intro origin source value target held run
  cases rule with
  | binary =>
      obtain ⟨op, right, _, read, _, rfl⟩ := binary_ok.1 run
      simpa using
        held.trans ((pays_advance source).trans (nested _ _ _ _ read))
  | hasAttr =>
      obtain ⟨path, read, rfl⟩ := hasAttr_ok.1 run
      simpa using
        held.trans ((pays_advance source).trans (attrPath_balances nested _ _ _ read))
  | select =>
      obtain ⟨path, read, rfl⟩ := select_ok.1 run
      simpa using
        held.trans ((pays_advance source).trans (attrPath_balances nested _ _ _ read))
  | apply =>
      obtain ⟨arguments, read, rfl⟩ := apply_ok.1 run
      have next : ledger.Balances (fun item => Expr.allComments item.toList)
          (argument expr) := by
        intro source item target run
        rcases argument_ok.1 run with ⟨_, value, read, rfl⟩ | ⟨_, rfl, rfl⟩
        · simpa using nested _ _ _ _ read
        · exact Pays.refl source
      simpa using
        held.trans (many_balances rfl Expr.allComments_cons next _ _ _ read)

end Rules

/-! ## Whole expressions -/

theorem continuation_extends (fallback : FallbackLevel) (limit levels : Nat)
    (nested : ∀ fewer, fewer < levels → ∀ power, ledger.Balances Expr.comments
      (expression (.standard fallback) limit fewer power)) (power : Power) (left : Expr) :
    ledger.Extends left.comments Expr.comments
      (continuation (.standard fallback) limit levels power left) := by
  induction levels generalizing left with
  | zero =>
      intro origin source value target held run
      rcases continuation_ok.1 run with ⟨_, rfl, rfl⟩ | ⟨_, _, _, _, _, _, _, absurd, _⟩
      · exact held
      · cases absurd
  | succ levels ih =>
      intro origin source value target held run
      rcases continuation_ok.1 run with ⟨_, rfl, rfl⟩ |
        ⟨_, operatorPower, rule, node, s₁, after, s₂, ⟨⟩, _, _, parsed, taken, continued⟩
      · exact held
      · have joined := joinRule_extends (nested levels (Nat.lt_succ_self levels)) _ _ _ _
          _ _ _ _ held parsed
        refine ih (fun fewer less => nested fewer (Nat.lt_succ_of_lt less)) _ _ _ _ _ ?_ continued
        simpa using joined.trans (takeAfter_balances _ _ _ taken)

theorem expression_balances (fallback : FallbackLevel) (limit levels : Nat) (power : Power) :
    ledger.Balances Expr.comments (expression (.standard fallback) limit levels power) := by
  induction levels using Nat.strongRecOn generalizing power with
  | ind levels ih =>
      intro source value target run
      cases levels with
      | zero => exact absurd run expression_zero_ok
      | succ levels =>
          obtain ⟨before, s₁, rule, first, s₂, after, s₃, taken, start, parsed, claimed,
            continued⟩ := expression_succ_ok.1 run
          have paid := (takeBefore_balances _ _ _ taken).trans <|
            (startRule_pays (ih levels (Nat.lt_succ_self levels)) start parsed).trans
              (takeAfter_balances _ _ _ claimed)
          refine continuation_extends fallback limit levels
            (fun fewer less => ih fewer (Nat.lt_succ_of_lt less)) _ _ _ _ _ _ ?_ continued
          simpa using paid

theorem document_pays {fallback : FallbackLevel} {limit : Nat} {source target : Stream}
    {document : Document} (fresh : source.unclaimed = {})
    (run : Parser.document (.standard fallback) limit source = .ok document target) :
    ledger.Pays source document.comments target := by
  obtain ⟨before, s₁, value, s₂, after, detached, read, _, taken, rfl⟩ := document_ok.1 run
  have body : ledger.Pays s₁ value.comments s₂ := expression_balances _ _ _ _ _ _ _ read
  simpa [Document.comments] using (pays_takeDetached fresh detached).trans
    (body.trans (takeBefore_balances _ _ _ taken))

end Ledger

end NixSyntax
