/-
Module: NixSyntax.Proofs.Fitting
Purpose: Texts of expressions that are read back, and how they fit next to other texts.
Main exports: Fit, Rereads, Fills, Fills.parens, Rereads.fills, Rereads.group, Rereads.negate,
  Rereads.invert, Expr.fit, Expr.Reread
-/
import NixSyntax.Proofs.Quoting
import NixSyntax.Proofs.Settling
import NixSyntax.Proofs.WellFormed

namespace NixSyntax

/-!
Whether an expression can stand next to another token depends on little: on
what it is read as in front of a dot, on the prefix operators that it starts
with, and on whether it starts with a path.  The printer puts parentheses at most
places where it would matter, so a few ways to fit are enough, and each place in a
tree asks for some of them.
-/

open NixSyntax.Parser

/-! ## Starts of texts -/

/-- The text starts with a character that is no blank and none of the others. -/
def heads (others : List Char) (text : String) : Bool :=
  text.toList.head?.any fun c => !isBlank c && !others.contains c

/-- What does not start a path does not start one behind the text. -/
def Slashless (text : String) : Prop :=
  ∀ rest, '/' ∉ pathRun rest → '/' ∉ pathRun (text.toList ++ rest)

/-- The text is empty or starts with a blank. -/
def Spaced (text : String) : Prop :=
  ∀ c ∈ text.toList.head?, c = ' '

section Texts

variable {breaks : List Char → Prop} {others : List Char} {text text' : String} {signs : List Sign}

theorem heads_of_head (c : Char) (head : text.toList.head? = some c)
    (solid : !isBlank c && !others.contains c) : heads others text := by
  rw [heads, head]
  exact solid

theorem heads_cons (head : heads others text) :
    ∃ c rest, text.toList = c :: rest ∧ ¬ isBlank c ∧ c ∉ others := by
  unfold heads at head
  cases chars : text.toList with
  | nil => simp [chars] at head
  | cons c rest =>
      rw [chars] at head
      simp at head
      exact ⟨c, rest, rfl, by simpa using head.1, head.2⟩

theorem heads_append (head : heads others text) (text' : String) :
    heads others (text ++ text') := by
  obtain ⟨c, rest, chars, solid, other⟩ := heads_cons head
  simp [heads, String.toList_append, chars, solid, other]

theorem heads_mono {fewer : List Char} (head : heads others text) (listed : fewer ⊆ others) :
    heads fewer text := by
  obtain ⟨c, rest, chars, solid, other⟩ := heads_cons head
  have kept : c ∉ fewer := fun member => other (listed member)
  simp [heads, chars, solid, kept]

theorem endsBlank_of_heads (head : heads others text) (rest : List Char) :
    EndsBlank (text.toList ++ rest) := by
  obtain ⟨c, more, chars, solid, -⟩ := heads_cons head
  rw [chars]
  exact .of_head c rfl (by simpa using solid)

theorem head_ne_of_heads {c : Char} (head : heads others text) (member : c ∈ others)
    (rest : List Char) : (text.toList ++ rest).head? ≠ some c := by
  obtain ⟨d, more, chars, -, other⟩ := heads_cons head
  rw [chars]
  rintro ⟨⟩
  exact other member

theorem heads_word (word : isWord text) : heads ['.', '>', '='] text := by
  obtain ⟨c, tail, chars, start, -⟩ := isWord_chars word
  have solid := isPathChar_solid (isWordStart_pathChar start)
  have dot : c ≠ '.' := by
    rintro rfl
    revert start
    decide
  have arrow : c ≠ '>' := by
    rintro rfl
    revert start
    decide
  have equals : c ≠ '=' := by
    rintro rfl
    revert start
    decide
  simp [heads, chars, solid, dot, arrow, equals]

theorem heads_identifier (identifier : isIdentifier text) : heads ['>', '='] text :=
  heads_mono (heads_word (isIdentifier_iff.1 identifier).1) (by simp)

theorem Slashless.append (front : Slashless text) (back : Slashless text') :
    Slashless (text ++ text') := by
  intro rest slashless
  rw [String.toList_append, List.append_assoc]
  exact front _ (back rest slashless)

theorem Slashless.of_free (free : '/' ∉ text.toList) : Slashless text :=
  fun _ slashless => pathRun_append free slashless

/-- A path does not start where something else does. -/
theorem Slashless.of_head (c : Char) (head : text.toList.head? = some c) (stop : isStop c) :
    Slashless text := by
  intro rest _
  have first : (text.toList ++ rest).head? = some c := by
    rw [List.head?_append, head]
    rfl
  rw [(Breaks.of_head c first stop).pathRun]
  exact List.not_mem_nil

theorem breaks_of_spaced (spaced : Spaced text) {rest : List Char} (ends : Breaks rest) :
    Breaks (text.toList ++ rest) := by
  cases chars : text.toList with
  | nil => exact ends
  | cons c more =>
      have blank : c = ' ' := spaced c (by rw [chars]; rfl)
      subst blank
      exact .of_head ' ' rfl rfl

end Texts

/-! ## Blanks between tokens -/

namespace Legible

variable {breaks : List Char → Prop} {text : String} {signs : List Sign}

theorem blankBehind (legible : Legible breaks text signs) (meets : ∀ rest, breaks (' ' :: rest)) :
    Legible EndsBlank (text ++ " ") signs := by
  rw [← List.append_nil signs]
  exact legible.append .blank fun rest _ => meets rest

theorem blankBefore (legible : Legible breaks text signs) (head : heads [] text) :
    Legible breaks (" " ++ text) signs :=
  blank.append legible fun rest _ => endsBlank_of_heads head rest

theorem reserved (kind : Kind) (listed : kind ∈ Kind.reserved) :
    Legible EndsWord kind.spelling [.mark kind] := by
  have known : ∀ kind ∈ Kind.reserved, isWord kind.spelling ∧ Kind.ofWord kind.spelling = kind := by
    decide
  obtain ⟨isWord, same⟩ := known kind listed
  have legible := word isWord
  rwa [same] at legible

theorem identifier (identifier : isIdentifier text) :
    Legible EndsWord text [⟨.identifier, text⟩] := by
  obtain ⟨isWord, same⟩ := isIdentifier_iff.1 identifier
  have legible := word isWord
  rwa [same] at legible

/-- A reserved word and a blank. -/
theorem leading (kind : Kind) (listed : kind ∈ Kind.reserved) :
    Legible EndsBlank (kind.spelling ++ " ") [.mark kind] :=
  (reserved kind listed).blankBehind fun _ => .of_head ' ' rfl rfl

/-- A reserved word between blanks. -/
theorem between (kind : Kind) (listed : kind ∈ Kind.reserved) :
    Legible EndsBlank (" " ++ (kind.spelling ++ " ")) [.mark kind] := by
  have known : ∀ kind ∈ Kind.reserved, heads [] kind.spelling := by decide
  exact (leading kind listed).blankBefore (heads_append (known kind listed) " ")

/-- An operator between blanks. -/
theorem operatorBetween (kind : Kind) (off : kind ∈ Kind.standsOff) :
    Legible EndsBlank (" " ++ (kind.spelling ++ " ")) [.mark kind] := by
  have known : ∀ kind ∈ Kind.standsOff, heads [] kind.spelling := by decide
  have behind := (operator kind off).blankBehind fun _ => rfl
  exact behind.blankBefore (heads_append (known kind off) " ")

/-- A delimiter and a blank. -/
theorem delimiterLeading (kind : Kind)
    (listed : kind ∈ [Kind.semicolon, .colon, .question, .atSign]) :
    Legible EndsBlank (kind.spelling ++ " ") [.mark kind] := by
  have known : [Kind.semicolon, .colon, .question, .atSign] ⊆ [Kind.bracketOpen, .bracketClose,
      .parenOpen, .parenClose, .semicolon, .colon, .question, .comma, .atSign] := by
    decide
  exact (delimiter kind (known listed)).blankBehind fun _ => trivial

/-- A delimiter between blanks. -/
theorem delimiterBetween (kind : Kind)
    (listed : kind ∈ [Kind.semicolon, .colon, .question, .atSign]) :
    Legible EndsBlank (" " ++ (kind.spelling ++ " ")) [.mark kind] := by
  have known : ∀ kind ∈ [Kind.semicolon, .colon, .question, .atSign], heads [] kind.spelling := by
    decide
  exact (delimiterLeading kind listed).blankBefore (heads_append (known kind listed) " ")

end Legible

/-! ## Ways to fit -/

/-- How the text of an expression fits next to other tokens. -/
inductive Fit where
  /-- Nothing continues it but a colon or an at sign. -/
  | closed
  /-- A dot would continue it, and a slash too. -/
  | plain
  /-- The same, and an operator as tight as a selection takes only its subject. -/
  | selected
  /-- A dot or a slash would continue it, and it starts with a path. -/
  | path
  /-- It starts with a dash. -/
  | negated
  /-- It starts with `!`, which takes every tighter operator along. -/
  | inverted
  /-- It starts with dashes in front of a `!`. -/
  | hanging
deriving DecidableEq

namespace Fit

/-- What breaks the text off. -/
def breaks : Fit → List Char → Prop
  | closed => EndsWord
  | _ => Breaks

/-- The kinds that would continue the expression, or make something else of its
tokens. -/
def continues : Fit → List Kind
  | closed => [.colon, .atSign]
  | plain | selected | path => [.dot, .colon, .atSign]
  | negated => [.dot, .colon, .atSign, .kwOr]
  | inverted | hanging =>
    [.dot, .colon, .atSign, .kwOr, .question, .concat, .star, .slash, .plus, .dash] ++
      Kind.argumentStart

/-- The kinds that the expression starts with. -/
def starts : Fit → List Kind
  | negated | hanging => [.dash]
  | inverted => [.not]
  | _ => Kind.argumentStart

/-- An operator goes on with the whole expression if it is looser than this. -/
def tight : Fit → Power
  | selected => .select
  | _ => .primary

/-- The expression starts with a prefix operator. -/
def IsPrefixed (fit : Fit) : Prop :=
  fit ∈ [negated, inverted, hanging]

/-- The fit of a negation. -/
def negate : Fit → Fit
  | inverted | hanging => hanging
  | _ => negated

theorem breaks_of_breaks (fit : Fit) {rest : List Char} (ends : Breaks rest) : fit.breaks rest := by
  cases fit with
  | closed => exact ends.endsWord
  | _ => exact ends

theorem lt_tight (fit : Fit) {power : Power} (below : power < .select) : power < fit.tight := by
  cases fit with
  | selected => exact below
  | _ => exact Nat.lt_succ_of_lt below

theorem continues_subset {fit : Fit} (other : fit ∉ [inverted, hanging]) :
    fit.continues ⊆ [.dot, .colon, .atSign, .kwOr] := by
  cases fit with
  | inverted | hanging => exact absurd (by simp) other
  | _ => decide

end Fit

/-- The text of an expression is read back wherever it fits. -/
structure Rereads (level : FallbackLevel) (fit : Fit) (text : String) (value : Expr)
    (signs : List Sign) : Prop where
  legible : Legible fit.breaks text signs
  leads : Leads level fit.tight (· ∉ fit.continues) signs value
  starts : ∀ kind, Sign.leadKind signs kind ∈ fit.starts
  head : heads ['>', '='] text
  slashless : fit ≠ .path → Slashless text

/-- The kinds behind a whole expression. -/
def Kind.closers : List Kind :=
  [parenClose, interpClose, curlyClose, semicolon, comma, kwThen, kwElse, endOfInput]

/-- The text of a whole expression is read back in front of what ends it. -/
structure Fills (level : FallbackLevel) (text : String) (value : Expr) (signs : List Sign) :
    Prop where
  legible : Legible Breaks text signs
  settles : Settles level (· ∈ Kind.closers) (fun expr => expr .base) signs value
  head : heads ['>', '='] text

section Expressions

variable {level : FallbackLevel} {follow : Kind → Prop} {fit : Fit} {text : String} {value : Expr}
  {signs : List Sign}

/-- An expression that fits is read up to where nothing continues it. -/
theorem Rereads.settles (inner : Rereads level fit text value signs) {power : Power}
    (below : power < fit.tight)
    (stops : ∀ kind, follow kind →
      kind ∉ fit.continues ∧ ¬ power < (Grammar.standard level).power kind) :
    Settles level follow (fun expr => expr power) signs value :=
  inner.leads.settles below stops

/-- What ends a whole expression ends one of every fit and power. -/
theorem closers_stop (level : FallbackLevel) (fit : Fit) (power : Power) :
    ∀ kind ∈ Kind.closers,
      kind ∉ fit.continues ∧ ¬ power < (Grammar.standard level).power kind := by
  have known : ∀ kind ∈ Kind.closers, kind ∉ fit.continues ∧
      (Grammar.standard level).power kind = .base := by
    cases level <;> cases fit <;> decide
  intro kind listed
  obtain ⟨other, base⟩ := known kind listed
  rw [base]
  exact ⟨other, Nat.not_lt_zero _⟩

theorem Rereads.fills (inner : Rereads level fit text value signs) :
    Fills level text value signs where
  legible := inner.legible.mono fun _ => fit.breaks_of_breaks
  settles := inner.settles (fit.lt_tight (by decide)) (closers_stop level fit .base)
  head := inner.head

theorem Fills.endsBlank (inner : Fills level text value signs) (rest : List Char) :
    EndsBlank (text.toList ++ rest) :=
  endsBlank_of_heads inner.head rest

/-- An expression behind a text that ends in a blank. -/
theorem Fills.behind {front : String} {signs' : List Sign} (inner : Fills level text value signs)
    (legible : Legible EndsBlank front signs') : Legible Breaks (front ++ text) (signs' ++ signs) :=
  legible.append inner.legible fun rest _ => inner.endsBlank rest

/-- An expression behind another text, with a token between blanks. -/
theorem Fills.join {front between : String} {signs' signs'' : List Sign}
    (inner : Fills level text value signs) (legible : Legible Breaks front signs')
    (middle : Legible EndsBlank between signs'') (spaced : between.toList.head? = some ' ') :
    Legible Breaks (front ++ between ++ text) (signs' ++ signs'' ++ signs) := by
  refine inner.behind (legible.append middle fun rest _ => .of_head ' ' ?_ rfl)
  rw [List.head?_append, spaced]
  rfl

/-- What starts and ends with delimiters of its own fits everywhere. -/
theorem Rereads.of_delimited {sign : Sign} (rule : StartRule) (c : Char)
    (start : Grammar.standardStart sign.kind = some rule) (listed : sign.kind ∈ Fit.closed.starts)
    (head : text.toList.head? = some c) (stop : isStop c)
    (solid : !isBlank c && c != '>' && c != '=')
    (legible : Legible (fun _ => True) text (sign :: signs))
    (read : Settles level (· ∉ Fit.closed.continues) (fun expr => rule.parse expr) (sign :: signs)
      value) :
    Rereads level .closed text value (sign :: signs) where
  legible := legible.mono fun _ _ => trivial
  leads := .of_rule rule start read
  starts := fun _ => listed
  head := heads_of_head c head (by simpa [and_assoc] using solid)
  slashless := fun _ => .of_head c head stop

/-- What stands in parentheses fits everywhere. -/
theorem Fills.parens (inner : Fills level text value signs) :
    Rereads level .closed (parens text) value
      (.mark .parenOpen :: (signs ++ [.mark .parenClose])) := by
  refine .of_delimited .group '(' rfl (by decide) (by simp [NixSyntax.parens]) rfl rfl ?_ ?_
  · have opening : Legible _ "(" _ := .delimiter .parenOpen (by decide)
    have closing : Legible _ ")" _ := .delimiter .parenClose (by decide)
    exact (opening.append inner.legible fun _ _ => trivial).append closing
      fun _ _ => .of_head ')' rfl rfl
  · filter_upwards [inner.settles] with levels read limit
    exact group_yields ((read limit).known (by decide))

theorem Rereads.group (inner : Rereads level fit text value signs) (needed : Bool) :
    ∃ signs', Rereads level (if needed then .closed else fit) (NixSyntax.group needed text) value
      signs' := by
  cases needed with
  | false => exact ⟨signs, inner⟩
  | true => exact ⟨_, inner.fills.parens⟩

/-- A dash in front of an operand that is no path. -/
theorem Rereads.negate (inner : Rereads level fit text value signs) (other : fit ≠ .path) :
    Rereads level fit.negate ("-" ++ text) (.bare (.unary .negate value))
      (.mark .dash :: signs) where
  legible := by
    have whole : Legible Breaks ("-" ++ text) (.mark .dash :: signs) := by
      apply Legible.dash.append (inner.legible.mono fun _ => fit.breaks_of_breaks)
      intro rest ends
      refine ⟨inner.slashless other rest ?_, head_ne_of_heads inner.head (by decide) rest⟩
      rw [ends.pathRun]
      exact List.not_mem_nil
    cases fit <;> exact whole
  leads := by
    refine .of_rule .unary rfl ?_
    have looser : ∀ kind, kind ∉ fit.negate.continues →
        kind ∉ fit.continues ∧ ¬ Power.unary < (Grammar.standard level).power kind := by
      intro kind
      cases level <;> cases fit <;> cases kind <;> decide
    filter_upwards [inner.settles (fit.lt_tight (by decide)) looser] with levels read limit
    exact unary_negate (read limit)
  starts := fun _ => show Kind.dash ∈ fit.negate.starts by cases fit <;> decide
  head := heads_append (by decide) text
  slashless := fun _ => .append (.of_free (by decide)) (inner.slashless other)

/-- An exclamation mark in front of any operand. -/
theorem Rereads.invert (inner : Rereads level fit text value signs) :
    Rereads level .inverted ("!" ++ text) (.bare (.unary .not value)) (.mark .not :: signs) where
  legible := by
    apply Legible.exclamation.append (inner.legible.mono fun _ => fit.breaks_of_breaks)
    exact fun rest _ => head_ne_of_heads inner.head (by decide) rest
  leads := by
    refine .of_rule .unary rfl ?_
    have looser : ∀ kind, kind ∉ Fit.inverted.continues →
        kind ∉ fit.continues ∧ ¬ Power.not < (Grammar.standard level).power kind := by
      intro kind
      cases level <;> cases fit <;> cases kind <;> decide
    filter_upwards [inner.settles (fit.lt_tight (by decide)) looser] with levels read limit
    exact unary_not (read limit)
  starts := fun _ => show Kind.not ∈ Fit.inverted.starts by decide
  head := heads_append (by decide) text
  slashless := fun _ => .of_head '!' (by simp) rfl

end Expressions

/-! ## The fit of each expression -/

mutual

/-- Whether the text of an expression ends in the operand of a `!` that only other
prefix operators stand in front of. -/
def Expr.hangs : Expr → Bool
  | ⟨clauses, form, _⟩ => clauses.isEmpty && form.hangs

/-- The same for a form. -/
def Form.hangs : Form → Bool
  | .unary .not _ => true
  | .unary .negate operand => operand.hangs
  | _ => false

end

def Form.fit : Form → Fit
  | .name _ => .plain
  | .select _ _ => .selected
  | .int _ => .plain
  | .float _ => .plain
  | .path _ => .path
  | .unary .not _ => .inverted
  | .unary .negate operand => if operand.hangs then .hanging else .negated
  | _ => .closed

/-- Clauses are written in parentheses along with the form behind them. -/
def Expr.fit (value : Expr) : Fit :=
  if value.clauses.isEmpty then value.form.fit else .closed

namespace Expr

/-- The way to fit tells whether the text ends in the operand of a `!`. -/
theorem hangs_iff (value : Expr) : value.hangs ↔ value.fit ∈ [.inverted, .hanging] := by
  obtain ⟨clauses, form, margin⟩ := value
  rw [hangs, fit]
  cases clauses.isEmpty with
  | false => simp
  | true =>
      cases form with
      | unary op operand =>
          cases op with
          | not => simp [Form.hangs, Form.fit]
          | negate => cases hangs : operand.hangs <;> simp [Form.hangs, Form.fit, hangs]
      | _ => simp [Form.hangs, Form.fit]

theorem fit_negate (operand : Expr) :
    (Form.unary .negate operand).fit = operand.fit.negate := by
  rw [Form.fit]
  have hanging := operand.hangs_iff
  cases fits : operand.fit <;> simp_all [Fit.negate]

theorem fit_of_startsWithNot {value : Expr} (starts : value.startsWithNot) :
    value.fit = .inverted := by
  obtain ⟨clauses, form, margin⟩ := value
  unfold startsWithNot at starts
  split at starts
  · next shape =>
      simp only at shape starts
      simp [fit, shape, starts, Form.fit]
  · cases starts

/-- The printer puts the subject of a selection in parentheses unless they would
change nothing. -/
theorem groupsInSelect_fit (value : Expr) : value.groupsInSelect = (value.fit != .closed) := by
  unfold groupsInSelect fit
  cases value.clauses.isEmpty with
  | false => rfl
  | true =>
      cases value.form with
      | unary op operand =>
          cases op with
          | not => rfl
          | negate => cases hangs : operand.hangs <;> simp [Form.fit, hangs]
      | _ => rfl

theorem fit_subject (value : Expr) :
    (if value.groupsInSelect then Fit.closed else value.fit) = .closed := by
  rw [value.groupsInSelect_fit]
  by_cases same : value.fit = .closed <;> simp [same]

/-- The same for arguments that start with a prefix operator. -/
theorem fit_argument (value : Expr) :
    ¬ (if value.form.isUnary then Fit.closed else value.fit).IsPrefixed := by
  unfold fit
  cases value.clauses.isEmpty with
  | false => cases value.form.isUnary <;> simp [Fit.IsPrefixed]
  | true => cases value.form <;> simp [Form.isUnary, Form.fit, Fit.IsPrefixed]

end Expr

/-- An expression without comments is read back from its text. -/
def Expr.Reread (level : FallbackLevel) (value : Expr) : Prop :=
  value.comments = [] → ∃ signs, Rereads level value.fit value.text value signs

section Reread

variable {level : FallbackLevel} {value : Expr}

theorem Expr.Reread.fills (reread : value.Reread level) (quiet : value.comments = []) :
    ∃ signs, Fills level value.text value signs := by
  obtain ⟨signs, inner⟩ := reread quiet
  exact ⟨signs, inner.fills⟩

theorem Expr.Reread.group (reread : value.Reread level) (quiet : value.comments = [])
    (needed : Bool) : ∃ signs, Rereads level (if needed then .closed else value.fit)
      (NixSyntax.group needed value.text) value signs := by
  obtain ⟨_, inner⟩ := reread quiet
  exact inner.group needed

end Reread

end NixSyntax
