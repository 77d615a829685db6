/-
Module: NixSyntax.Proofs.Entire
Purpose: The whole parser compared along a fork: start rules, join rules, expressions, documents.
Main exports: Parser.startRule_sound, Parser.joinRule_sound, Parser.expression_reliable,
  Parser.document_sound, parseTokens_stops
-/
import NixSyntax.Proofs.Foresight

namespace NixSyntax

/-- The kinds at which the grammar has this rule. -/
def StartRule.kinds : StartRule → List Kind
  | literal => [.int, .float, .kwTrue, .kwFalse, .kwNull, .path]
  | name => [.identifier]
  | string => [.quoteOpen, .indentOpen]
  | group => [.parenOpen]
  | list => [.bracketOpen]
  | importing => [.kwImport]
  | unary => [.dash, .not]
  | conditional => [.kwIf]
  | clause => [.kwWith, .kwAssert]
  | braces => [.curlyOpen]
  | recursiveAttrs => [.kwRec]
  | letIn => [.kwLet]
  | lambda => []

theorem Grammar.mem_kinds {kind : Kind} {rule : StartRule}
    (start : standardStart kind = some rule) : kind ∈ rule.kinds := by
  cases kind <;> cases start <;> decide

/-- A rule is found exactly for the kinds that a message lists. -/
theorem Grammar.standardStart_eq_none {kind : Kind} :
    standardStart kind = none ↔ kind ∉ Kind.expressionStart := by
  cases kind <;> decide

namespace Parser

open NixSyntax.Stream

variable {expr : ExprParser}

/-! ## Faults that lie in no kind -/

/-- The limit of depth names no kind and counts as passed everywhere. -/
theorem tooDeep_sound {α γ : Type} {known starts : Kind → Prop} {closes : List Kind} {view : α → γ}
    (limit : Nat) : Sound 0 known starts closes view (fail (.tooDeep limit) : Parser α) where
  leaves source _ _ :=
    ⟨(Behind.refl source).mono fun both => Bool.noConfusion both.2, .of_stream source rfl nofun⟩
  meets _ _ _ _ _ _ _ _ := .stuck fun _ => List.not_mem_nil

/-- A bad number lies at the token that has been read. -/
theorem number_sound {α : Type} (read : String → Option α) {kind : Kind}
    (solid : kind ≠ .endOfInput) {starts : Kind → Prop} :
    Sound 1 (· = kind) starts [] id (number read) := by
  have outcome : ∀ source : Stream, number read source = (read source.advance.1.value).elim
      (.error ⟨.badNumber source.advance.1.raw, source.position⟩ source.advance.2)
      (fun value => .ok value source.advance.2) := by
    intro source
    rw [number, bind_run (get_ok.2 ⟨rfl, rfl⟩), bind_run (advance_ok.2 ⟨rfl, rfl⟩)]
    cases read source.advance.1.value <;> rfl
  constructor
  · rintro source ended rfl
    have behind := (behind_advance ended).mono fun _ : starts source.current.kind => solid
    rw [outcome]
    cases read source.advance.1.value with
    | some value => exact behind
    | none =>
        refine ⟨behind.mono fun both => both.1, ⟨_, List.mem_cons_self, rfl⟩, rfl, ?_, ?_⟩
        · exact fun other => Bool.noConfusion other
        · rintro _ _ _ ⟨⟩
  · intro fork front source source' ahead before _ _
    cases front with
    | nil => exact absurd before (Nat.not_succ_le_zero 0)
    | cons sign front =>
        obtain ⟨first, second⟩ := ahead.same_sign
        have same : source'.advance.1.value = source.advance.1.value := by
          rw [advance_fst, advance_fst]
          exact Token.value_eq (second.trans first.symm)
        rw [outcome, outcome, same]
        cases read source.advance.1.value with
        | some value => exact .ok rfl ⟨front, ahead.advance⟩
        | none => exact .stuck fun _ => List.not_mem_nil

/-! ## Start rules -/

section Rules

variable (nested : Reliable expr)

theorem literal_sound :
    Sound 1 (· ∈ [Kind.int, .float, .kwTrue, .kwFalse, .kwNull, .path]) (fun _ => True) [] id
      literal := by
  have constant : ∀ (kind : Kind) (value : Expr), kind ≠ .endOfInput →
      Sound 1 (· = kind) (fun _ => True) [] id (advance >>= fun _ => pure value) :=
    fun kind value solid => (advance_at solid).andThen .pure
  apply Sound.dispatch
  intro kind member
  simp only [List.mem_cons, List.not_mem_nil, or_false] at member
  rcases member with rfl | rfl | rfl | rfl | rfl | rfl
  · exact (number_sound _ (by decide)).bind fun _ => .pure
  · exact (number_sound _ (by decide)).bind fun _ => .pure
  · exact constant _ _ (by decide)
  · exact constant _ _ (by decide)
  · exact constant _ _ (by decide)
  · apply (advance_at (by decide)).bind_sign
    · intro token token' same
      rw [Token.value_eq same]
    · exact fun _ => .pure

include nested

theorem string_sound : Sound 0 Anywhere (· ∈ [Kind.quoteOpen, .indentOpen]) [] id (string expr) :=
  (stringLiteral_sound nested).bind fun _ => .pure

theorem group_sound : Sound 0 Anywhere (· ≠ .endOfInput) [] id (group expr) := by
  apply advance_sound.andThen
  apply (nested.sound _).bind
  intro value
  exact (expect_sound _ (by decide)).andThen .pure

theorem element_sound :
    Sound 0 Anywhere (· ∈ Kind.expressionStart) [.bracketClose] id (element expr) := by
  apply Sound.choose
  intro kind
  split
  · exact .nothing (by decide) (by decide)
  · exact .unexpected (by decide) (by decide) (fun _ => .inr) (List.cons_ne_nil _ _) (by decide)
  · next close _ =>
      exact .item (nested.sound _) (fun source => nested.refuses _ source) (by simpa using close)

theorem element_starts {source target : Stream} {item : Expr}
    (run : element expr source = .ok (some item) target) :
    source.current.kind ∈ Kind.expressionStart := by
  obtain ⟨-, ⟨⟩, -⟩ | ⟨-, value, read, -⟩ := element_ok.1 run
  exact nested.starts read

theorem element_shrinks : Shrinks Stream.Ended (element expr) :=
  shrinks_of_sound (element_sound nested) fun _ _ _ run => element_starts nested run

theorem list_sound : Sound 0 Anywhere (· ≠ .endOfInput) [] id (list expr) := by
  have elements : Sound 0 Anywhere (· ∈ Kind.expressionStart) [.bracketClose] id
      (many (element expr)) := by
    apply many_sound (element_sound nested)
    · exact fun source item target run => element_starts nested run
    · intro kind member source same
      exact element_ok.2 (.inl ⟨same.trans (List.mem_singleton.1 member), rfl, rfl⟩)
  apply advance_sound.andThen
  apply elements.bind_close
  · intro found
    apply Sound.takeBefore
    intro inner
    exact advance_sound.andThen .pure
  · intro kind member
    rw [List.mem_singleton.1 member]
    exact .inl (by decide)

theorem importing_sound : Sound 0 Anywhere (· ≠ .endOfInput) [] id (importing expr) :=
  advance_sound.andThen ((nested.sound _).bind fun _ => .pure)

theorem unary_sound : Sound 0 Anywhere (· ≠ .endOfInput) [] id (unary expr) := by
  apply advance_sound.bind_sign
  · intro operator operator' same
    rw [Token.kind_eq same]
  · intro operator
    split
    · exact (nested.sound _).bind fun _ => .pure
    · exact (nested.sound _).bind fun _ => .pure

theorem conditional_sound : Sound 0 Anywhere (· ≠ .endOfInput) [] id (conditional expr) := by
  apply advance_sound.andThen
  apply (nested.sound _).bind
  intro condition
  apply (expect_sound _ (by decide)).andThen
  apply (nested.sound _).bind
  intro yes
  apply (expect_sound _ (by decide)).andThen
  apply (nested.sound _).bind
  exact fun _ => .pure

theorem clause_sound : Sound 0 Anywhere (· ≠ .endOfInput) [] id (clause expr) := by
  apply advance_sound.bind_sign
  · intro word word' same
    rw [Token.kind_eq same]
  · intro word
    apply (nested.sound _).bind
    intro subject
    apply (expect_sound _ (by decide)).andThen
    apply Sound.takeUnclaimed
    intro comments
    apply (nested.sound _).bind
    exact fun _ => .pure

theorem startRule_sound {kind : Kind} {rule : StartRule}
    (start : Grammar.standardStart kind = some rule) :
    Sound 1 (· = kind) (fun _ => True) [] id (rule.parse expr) := by
  have member := Grammar.mem_kinds start
  have solid : kind ≠ .endOfInput := by
    rintro rfl
    cases start
  cases rule with
  | literal => exact literal_sound.among member
  | name => exact (name_sound nested).among (List.mem_singleton.1 member)
  | string => exact (string_sound nested).at_kind (Nat.zero_le 1) fun _ => member
  | group => exact (group_sound nested).at_kind (Nat.zero_le 1) fun _ => solid
  | list => exact (list_sound nested).at_kind (Nat.zero_le 1) fun _ => solid
  | importing => exact (importing_sound nested).at_kind (Nat.zero_le 1) fun _ => solid
  | unary => exact (unary_sound nested).at_kind (Nat.zero_le 1) fun _ => solid
  | conditional => exact (conditional_sound nested).at_kind (Nat.zero_le 1) fun _ => solid
  | clause => exact (clause_sound nested).at_kind (Nat.zero_le 1) fun _ => solid
  | braces => exact (braces_sound nested).among (List.mem_singleton.1 member)
  | recursiveAttrs =>
      have word : Sound 0 Anywhere (· = .kwRec) [] id (recursiveAttrs expr) :=
        (expect_sound .kwRec (by decide)).andThen (attrs_sound nested true).lax
      exact word.at_kind (Nat.zero_le 1) fun _ => List.mem_singleton.1 member
  | letIn =>
      exact (letIn_sound nested).at_kind (Nat.zero_le 1) fun _ => List.mem_singleton.1 member
  | lambda => cases member

/-! ## Join rules -/

omit nested in
/-- Behind a comparison stands no other one of its power.  No fault names an
operator that compares as expected. -/
theorem unchained_sound (fallback : FallbackLevel) (power : Power) (value : Expr) :
    Sound 0 Anywhere (fun _ => False) [] id (currentKind >>= fun kind =>
      if power.isNonAssociative ∧ (Grammar.standard fallback).power kind = power then
        get >>= fun stream => fail (.chained stream.current.raw)
      else pure value) := by
  have compares : ∀ kind, power.isNonAssociative ∧ (Grammar.standard fallback).power kind = power →
      kind ∈ Kind.comparisons := by
    rintro kind ⟨alone, rfl⟩
    revert alone
    cases fallback <;> cases kind <;> decide
  constructor
  · intro source ended _
    rw [currentKind_bind]
    split
    · exact ⟨(Behind.refl source).mono fun both => both.1, .of_stream source rfl nofun⟩
    · exact (Behind.refl source).mono False.elim
  · intro fork front source source' ahead _ _ _
    rw [currentKind_bind, currentKind_bind]
    split
    · exact .stuck fun _ => List.not_mem_nil
    split
    · next alone alone' =>
        -- Here the second run is refused, which it could only be in front of the fork.
        exfalso
        cases front with
        | nil => exact fork.single (ahead.at_fork.2 ▸ compares _ alone')
        | cons sign front =>
            rw [ahead.same_kind (List.cons_ne_nil _ _)] at alone'
            exact alone alone'
    · exact .ok rfl ⟨front, ahead⟩

theorem joinRule_sound {fallback : FallbackLevel} {kind : Kind} {power : Power} {rule : JoinRule}
    (joins : Grammar.standardJoin fallback kind = some (power, rule)) (left : Expr) :
    Sound 1 (· = kind) (fun _ => True) [] id
      (rule.parse (.standard fallback) expr left power) := by
  have solid : kind ≠ .endOfInput := by
    rintro rfl
    cases joins
  cases rule with
  | binary =>
      obtain ⟨op, known⟩ : ∃ op, BinaryOp.ofKind? kind = some op := by
        revert joins
        cases kind <;> simp [Grammar.standardJoin, BinaryOp.ofKind?, Kind.argumentStart]
      apply Sound.dispatch
      rintro _ rfl
      rw [known]
      apply (advance_at solid).andThen
      apply (nested.sound _).bind
      exact fun right => unchained_sound fallback power _
  | hasAttr =>
      apply (advance_at solid).andThen
      apply (attrPath_sound nested).lax.bind
      exact fun _ => .pure
  | select =>
      apply (advance_at solid).andThen
      apply (attrPath_sound nested).lax.bind
      exact fun _ => .pure
  | apply =>
      have step : Sound 0 Anywhere (· ∈ Kind.argumentStart) [] id (argument expr) := by
        apply Sound.offer
        · intro kind member
          rw [if_pos member]
          exact ((nested.sound _).at_kind (Nat.zero_le 1) fun _ =>
            List.Subset.trans (by decide) (List.Subset.refl _) member).some
        · intro kind other
          rw [if_neg other]
      have arguments : Sound 0 Anywhere (· ∈ Kind.argumentStart) [] id
          (many (argument expr)) := by
        refine many_sound step ?_ fun _ member => absurd member List.not_mem_nil
        intro source item target run
        rcases argument_ok.1 run with ⟨member, -⟩ | ⟨-, ⟨⟩, -⟩
        exact member
      refine (arguments.at_kind (Nat.zero_le 1) fun _ => ?_).bind fun _ => .pure
      exact standardJoin_apply joins

end Rules

/-! ## Expressions -/

/-- At an operator that binds tighter an expression goes on, and anywhere else
it ends. -/
theorem continuation_offer {fallback : FallbackLevel} {power : Power} {left : Expr}
    {further : Power → JoinRule → Parser Expr}
    (each : ∀ kind operator rule, Grammar.standardJoin fallback kind = some (operator, rule) →
      Sound 1 (· = kind) (fun _ => True) [] id (further operator rule)) :
    Sound 0 Anywhere (fun _ => False) [] id (currentKind >>= fun kind =>
      match (Grammar.standard fallback).join kind with
      | none => pure left
      | some (operator, rule) => if power < operator then further operator rule else pure left) := by
  have offered : Sound 0 Anywhere (fun kind => ∃ operator rule,
      (Grammar.standard fallback).join kind = some (operator, rule) ∧ power < operator) [] id
      (currentKind >>= fun kind => match (Grammar.standard fallback).join kind with
        | none => pure left
        | some (operator, rule) =>
          if power < operator then further operator rule else pure left) := by
    apply Sound.offer
    · rintro kind ⟨operator, rule, joins, above⟩
      rw [joins]
      dsimp only
      rw [if_pos above]
      exact (each kind operator rule joins).mono le_rfl (fun _ => id) (fun _ _ _ => trivial)
        (List.Subset.refl _)
    · intro kind other
      split
      · rfl
      · next operator rule joins => exact if_neg fun above => other ⟨operator, rule, joins, above⟩
  exact offered.lax

theorem continuation_sound (fallback : FallbackLevel) (limit levels : Nat)
    (nested : ∀ fewer < levels, Reliable (expression (.standard fallback) limit fewer))
    (power : Power) (left : Expr) :
    Sound 0 Anywhere (fun _ => False) [] id
      (continuation (.standard fallback) limit levels power left) := by
  induction levels generalizing left with
  | zero =>
      rw [continuation]
      apply continuation_offer
      exact fun _ _ _ _ => (tooDeep_sound limit).mono (Nat.zero_le 1) (fun _ => id)
        (fun _ _ => id) (List.Subset.refl _)
  | succ levels ih =>
      rw [continuation]
      apply continuation_offer
      intro kind operator rule joins
      apply (joinRule_sound (nested levels (Nat.lt_succ_self levels)) joins left).bind
      intro node
      apply Sound.takeAfter
      intro after
      exact ih (fun fewer less => nested fewer (Nat.lt_succ_of_lt less)) _

/-- Below the limit an expression is read by the start rule for its first token,
and goes on behind what that rule reads. -/
theorem expression_branches (fallback : FallbackLevel) (limit levels : Nat)
    (nested : ∀ fewer ≤ levels, Reliable (expression (.standard fallback) limit fewer))
    (power : Power) (before : List Comment) :
    Sound.Branches (· ∈ Kind.expressionStart) [] id
      (currentKind >>= fun kind => match (Grammar.standard fallback).start kind with
        | none => unexpected Kind.expressionStart
        | some rule => rule.parse (expression (.standard fallback) limit levels) >>= fun first =>
            takeAfter >>= fun after => continuation (.standard fallback) limit levels power
              ((first.addBefore before).addAfter after)) := by
  refine ⟨_, rfl, fun kind => ?_⟩
  cases start : (Grammar.standard fallback).start kind with
  | none =>
      exact .unexpected (Grammar.standardStart_eq_none.1 start) List.not_mem_nil (fun _ => .inl)
        (List.cons_ne_nil _ _) (by decide)
  | some rule =>
      have member : kind ∈ Kind.expressionStart := by
        by_contra other
        rw [← Grammar.standardStart_eq_none] at other
        cases other.symm.trans start
      refine .reads member (Sound.mono ?_ le_rfl (fun _ => id) (fun _ _ _ => trivial)
        (List.Subset.refl _))
      apply (startRule_sound (nested levels le_rfl) start).bind
      intro first
      apply Sound.takeAfter
      intro after
      exact continuation_sound fallback limit levels (fun fewer less => nested fewer less.le)
        power _

theorem expression_reliable (fallback : FallbackLevel) (limit levels : Nat) :
    Reliable (expression (.standard fallback) limit levels) := by
  induction levels using Nat.strongRecOn with
  | ind levels ih =>
      cases levels with
      | zero =>
          constructor
          · intro power
            rw [expression]
            exact tooDeep_sound limit
          · intro power source _
            rw [expression]
            exact ⟨_, source, rfl, rfl, .of_stream source rfl (by rintro _ _ _ ⟨⟩),
              fun _ member => absurd member List.not_mem_nil⟩
      | succ levels =>
          have branches := expression_branches fallback limit levels fun fewer less =>
            ih fewer (Nat.lt_succ_of_le less)
          constructor
          · intro power
            rw [expression]
            exact .takeBefore fun before => (branches power before).sound
          · intro power source other
            rw [expression]
            obtain ⟨comments, target, took, same⟩ : ∃ comments target,
                takeBefore source = .ok comments target ∧ target.bare = source.bare :=
              ⟨_, _, rfl, rfl⟩
            rw [← kind_eq_of_bare same] at other
            exact Refuses.behind took same <|
              ((branches power comments).refused other List.not_mem_nil).mono fun kind =>
                (·.resolve_right List.not_mem_nil)

theorem document_sound (fallback : FallbackLevel) (limit : Nat) :
    Sound 0 Anywhere (· ∈ Kind.expressionStart) [.endOfInput] id
      (document (.standard fallback) limit) := by
  apply Sound.takeDetached
  intro before
  refine ((expression_reliable fallback limit limit).sound _).bind
    (fun value => ?_ : ∀ value, Sound 0 Anywhere (fun _ => False) [.endOfInput] id _)
  apply Sound.choose
  intro kind
  split
  · next atEnd =>
      refine .stops (List.mem_singleton.2 atEnd) ?_ fun source _ => ⟨_, _, rfl, rfl⟩
      apply Sound.takeBefore
      intro after
      exact Sound.pure
  · next more =>
      exact .unexpected id (by simpa using more) (fun _ => .inr) (List.cons_ne_nil _ _)
        (by decide)

end Parser

/-- A parse of tokens that fails stops at tokens of its own, and its fault is fair. -/
theorem parseTokens_stops {options : Options} {tokens : List Token} {fault : Fault}
    (failed : parseTokens options tokens = .error fault) :
    ∃ target, Parser.document (.standard options.fallback) options.maxDepth
        (.ofTokens options.file tokens) = .error fault target ∧
      target.bare <:+ (Stream.ofTokens options.file tokens).bare ∧
      fault.Fair (.ofTokens options.file tokens) target := by
  obtain ⟨target, run⟩ := parseTokens_error.1 failed
  have leaves := (Parser.document_sound options.fallback options.maxDepth).leaves _
    (Stream.ofTokens_ended options.file tokens) trivial
  rw [run] at leaves
  exact ⟨target, run, leaves.1.suffix, leaves.2⟩

end NixSyntax
