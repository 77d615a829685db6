/-
Module: NixSyntax.Proofs.Forms
Purpose: Each form is read back from its printed text, if the expressions inside it are.
Main exports: name_reread, string_reread, list_reread, attrs_reread, select_reread, Fills.of_rule,
  Fills.of_join
-/
import NixSyntax.Proofs.Precedence
import NixSyntax.Proofs.Rows

namespace NixSyntax

open NixSyntax.Parser

/-!
A form is put together from the texts of its parts and the tokens between them.
It is read back by the rule that its first token starts, or, where an operator
stands behind its first part, by the rule of the operator.
-/

/-! ## Literals -/

theorem digitsValue_toDigits (value : Nat) : digitsValue (Nat.toDigits 10 value) = value := by
  have known := Nat.ofDigitChars_ten_toDigits (n := value)
  rwa [Nat.ofDigitChars_eq_foldl] at known

/-- A number that fits is written in digits, and read back from them. -/
theorem readInteger_toString {value : Int} (positive : 0 ≤ value)
    (fits : value ≤ 9223372036854775807) :
    (∀ c ∈ (toString value).toList, c.isDigit) ∧ (toString value).toList ≠ [] ∧
      readInteger (toString value) = some value := by
  obtain ⟨n, rfl⟩ := Int.eq_ofNat_of_zero_le positive
  have chars : (toString (n : Int)).toList = Nat.toDigits 10 n := by
    show (Nat.repr n).toList = _
    exact Nat.toList_repr
  have digits : ∀ c ∈ Nat.toDigits 10 n, c.isDigit :=
    fun c member => Nat.isDigit_of_mem_toDigits (by decide) (by decide) member
  refine ⟨by rwa [chars], by rw [chars]; exact Nat.toDigits_ne_nil, ?_⟩
  have within : fitsInteger (n : Int) := by
    simp only [fitsInteger, Bool.and_eq_true, decide_eq_true_eq]
    omega
  rw [readInteger, chars, splitSign_digits digits]
  simpa [Nat.toDigits_ne_nil, digitsValue_toDigits, within] using digits

theorem heads_pathChar {text : String} {c : Char} (head : text.toList.head? = some c)
    (inside : isPathChar c) : heads ['>', '='] text := by
  have solid := isPathChar_solid inside
  have arrow : c ≠ '>' := by
    rintro rfl
    revert inside
    decide
  have equals : c ≠ '=' := by
    rintro rfl
    revert inside
    decide
  simp [heads, head, solid, arrow, equals]

theorem heads_path {text : String} (path : isPath text) : heads ['>', '='] text := by
  have shape := isPath_iff.1 path
  generalize chars : text.toList = path at shape
  cases shape with
  | bracketed _ _ _ =>
      simp [heads, chars]
      decide
  | home _ _ =>
      simp [heads, chars]
      decide
  | plain whole slash =>
      cases path with
      | nil => cases slash
      | cons c run =>
          rcases pathRun_head whole with inside | ⟨rfl, -⟩
          · exact heads_pathChar (by rw [chars]; rfl) inside
          · simp [heads, chars]
            decide

section Literals

variable {level : FallbackLevel}

theorem int_reread {value : Int} (positive : 0 ≤ value) (fits : value ≤ 9223372036854775807) :
    Rereads level .plain (toString value) (.bare (.int value)) [⟨.int, toString value⟩] := by
  obtain ⟨digits, present, read⟩ := readInteger_toString positive fits
  obtain ⟨c, tail, chars⟩ := List.exists_cons_of_ne_nil present
  have digit : c.isDigit := digits c (chars ▸ List.mem_cons_self)
  exact {
    legible := .int present digits
    leads := by
      refine .of_rule .literal rfl (.of_forall fun _ _ => literal_yields ?_)
      intro token same
      have kind : token.kind = .int := congrArg Sign.kind same
      have digits : token.value = toString value := congrArg Sign.value same
      simp only [Token.literal?, kind, digits, read, Option.map_some]
    starts := fun _ => show Kind.int ∈ Fit.plain.starts by decide
    head := heads_pathChar (by rw [chars]; rfl) (isDigit_pathChar digit)
    slashless := fun _ => .of_free fun member => absurd (digits _ member) (by decide) }

theorem path_reread {text : String} (path : isPath text) :
    Rereads level .path text (.bare (.path text)) [⟨.path, text⟩] where
  legible := .path path
  leads := by
    refine .of_rule .literal rfl (.of_forall fun _ _ => literal_yields ?_)
    intro token same
    have kind : token.kind = .path := congrArg Sign.kind same
    have value : token.value = text := congrArg Sign.value same
    simp only [Token.literal?, kind, value]
  starts := fun _ => show Kind.path ∈ Fit.path.starts by decide
  head := heads_path path
  slashless := fun other => absurd rfl other

/-- A form that is written as a reserved word. -/
theorem constant_reread (kind : Kind) {form : Form}
    (listed : kind ∈ [Kind.kwTrue, .kwFalse, .kwNull])
    (known : ∀ token : Token, token.kind = kind → token.literal? = some form) :
    Rereads level .closed kind.spelling (.bare form) [.mark kind] := by
  have word : ∀ kind ∈ [Kind.kwTrue, .kwFalse, .kwNull], kind ∈ Kind.reserved ∧
      isWord kind.spelling ∧ Grammar.standardStart kind = some .literal ∧
      kind ∈ Fit.closed.starts := by
    decide
  obtain ⟨reserved, word, start, starts⟩ := word kind listed
  exact {
    legible := .reserved kind reserved
    leads := .of_rule .literal start (.of_forall fun _ _ =>
      literal_yields fun token same => known token (congrArg Sign.kind same))
    starts := fun _ => starts
    head := heads_mono (heads_word word) (by simp)
    slashless := fun _ => .of_free (isWord_slashless word) }

end Literals

/-! ## Attribute paths and strings -/

section Paths

variable {level : FallbackLevel} {segments : List Segment}

/-- A name, or a dotted path that starts with one. -/
theorem name_reread (present : segments ≠ []) (named : ∀ first ∈ segments.head?, first.IsName)
    (ready : Segment.Readable level segments) :
    ∃ signs, Rereads level .plain (".".intercalate (Segment.texts segments))
      (.bare (.name segments)) signs := by
  cases segments with
  | nil => exact absurd rfl present
  | cons first segments =>
      cases first with
      | computed value => exact (named _ rfl).elim
      | quoted parts => exact (named _ rfl).elim
      | name text =>
          have identifier : isIdentifier text := named _ rfl
          obtain ⟨signs, dotted⟩ := Segment.dotted_reread ready.split.2
          have read := (Segment.name_reread (.inl identifier)).dotted dotted
          rw [(isIdentifier_iff.1 identifier).2] at read
          rw [Segment.texts, Segment.intercalate_texts]
          exact ⟨⟨.identifier, text⟩ :: signs, {
            legible := read.legible.mono fun _ => Breaks.endsWord
            leads := by
              refine .of_rule .name rfl ?_
              -- In front of a colon or an at sign the name would be that of a parameter.
              have ahead : ∀ kind, kind ∉ Fit.plain.continues →
                  Sign.leadKind signs kind ∉ [Kind.colon, .atSign] := by
                intro kind other
                cases signs with
                | nil => exact fun listed => other (List.mem_cons_of_mem _ listed)
                | cons sign more =>
                    have dot : sign.kind = .dot := dotted.starts sign rfl
                    rw [Sign.leadKind_cons, dot]
                    decide
              have dotless : ∀ kind, kind ∉ Fit.plain.continues → kind ≠ .dot := by
                rintro kind other rfl
                exact other (by decide)
              filter_upwards [read.settles] with levels read limit
              exact name_path ((read limit).mono dotless) ahead
            starts := fun _ => show Kind.identifier ∈ Fit.plain.starts by decide
            head := heads_mono read.head (by simp)
            slashless := fun _ => read.slashless }⟩

theorem string_reread {parts : List StringPart} (separate : StringPart.Separate parts)
    (paired : StringPart.Paired parts) (quiet : StringPart.comments parts = [])
    (each : ∀ part ∈ StringPart.inside parts, part.Reread level) :
    ∃ signs, Rereads level .closed (StringPart.quotedText false parts) (.bare (.string false parts))
      signs := by
  obtain ⟨signs, quoted, settles⟩ := StringPart.reread separate paired quiet each
  refine ⟨.mark .quoteOpen :: (signs ++ [.mark .quoteClose]),
    .of_delimited .string '"' rfl (by decide) ?_ rfl rfl ?_ ?_⟩
  · simp [StringPart.quotedText, stringQuotes]
  · exact .quotes quoted
  · filter_upwards [settles] with levels read limit
    exact string_yields (read limit)

theorem list_reread {elements : List Expr} (quiet : Expr.allComments elements = [])
    (each : ∀ part ∈ elements, part.Reread level) (apart : Expr.Apart elements) :
    ∃ signs, Rereads level .closed ("[" ++ Expr.items elements ++ " ]") (.bare (.list elements []))
      signs := by
  obtain ⟨signs, row⟩ := Expr.items_reread quiet each apart
  refine ⟨.mark .bracketOpen :: (signs ++ [.mark .bracketClose]),
    .of_delimited .list '[' rfl (by decide) (by simp) rfl rfl ?_ ?_⟩
  · have opening : Legible _ "[" _ := .delimiter .bracketOpen (by decide)
    have bracket : Legible _ "]" _ := .delimiter .bracketClose (by decide)
    have closing : Legible _ " ]" _ := bracket.blankBefore (by decide)
    exact (opening.append row.legible fun _ _ => trivial).append closing
      fun _ _ => .of_head ' ' rfl rfl
  · filter_upwards [row.settles] with levels read limit
    exact list_yields (read limit)

/-- The text of a set in braces. -/
def Binding.bracesText (entries : List Binding) : String :=
  if entries.isEmpty then "\x7b\x7d" else "\x7b" ++ Binding.text entries ++ " \x7d"

theorem braces_legible {entries : List Binding} {signs : List Sign}
    (legible : Legible Breaks (Binding.text entries) signs) :
    Legible (fun _ => True) (Binding.bracesText entries)
      (.mark .curlyOpen :: (signs ++ [.mark .curlyClose])) := by
  cases entries with
  | nil => exact legible.braces fun _ => .of_head '}' rfl rfl
  | cons entry entries =>
      have inner := legible.blankBehind fun _ => .of_head ' ' rfl rfl
      have whole := inner.braces fun _ => .of_head '}' rfl rfl
      have same : Binding.bracesText (entry :: entries) =
          "\x7b" ++ (Binding.text (entry :: entries) ++ " ") ++ "\x7d" := by
        show "\x7b" ++ Binding.text (entry :: entries) ++ (" " ++ "\x7d") = _
        simp only [String.append_assoc]
      rwa [same]

/-- A set is read back, with or without a word in front. -/
theorem attrs_reread (recursive : Bool) {entries : List Binding}
    (ready : Binding.Readable level entries) :
    ∃ signs, Rereads level .closed
      ((if recursive then "rec " else "") ++ Binding.bracesText entries)
      (.bare (.attrs recursive entries [])) signs := by
  obtain ⟨signs, row, -, tells⟩ :=
    Binding.row_reread (by decide : Kind.curlyClose ∈ [Kind.curlyClose, .kwIn]) ready
  have braces := braces_legible row.legible
  have brace : (Binding.bracesText entries).toList.head? = some '{' := by
    cases entries <;> simp [Binding.bracesText]
  cases recursive with
  | false =>
      rw [if_neg Bool.false_ne_true, String.empty_append]
      refine ⟨.mark .curlyOpen :: (signs ++ [.mark .curlyClose]),
        .of_delimited .braces '{' rfl (by decide) brace rfl rfl braces ?_⟩
      filter_upwards [row.settles] with levels read limit
      apply braces_attrs (attrs_yields false (read limit))
      intro kind others other
      simpa [Sign.mark] using tells kind others other
  | true =>
      have word : Legible EndsBlank "rec " [.mark .kwRec] := .leading .kwRec (by decide)
      exact ⟨.mark .kwRec :: .mark .curlyOpen :: (signs ++ [.mark .curlyClose]), {
        legible := by
          have whole := word.append braces fun rest _ => .of_head '{' (by simp [brace]) rfl
          exact whole.mono fun _ _ => trivial
        leads := by
          refine .of_rule .recursiveAttrs rfl ?_
          filter_upwards [row.settles] with levels read limit
          exact recursiveAttrs_yields (read limit)
        starts := fun _ => show Kind.kwRec ∈ Fit.closed.starts by decide
        head := heads_append (by decide) _
        slashless := fun _ => .append (.of_free (by decide)) (.of_head '{' brace rfl) }⟩

end Paths

/-! ## Forms in parentheses -/

/-- A form that starts by a rule fills its parentheses. -/
theorem Fills.of_rule {level : FallbackLevel} {sign : Sign} {signs : List Sign} {text : String}
    {value : Expr} (rule : StartRule) (start : Grammar.standardStart sign.kind = some rule)
    (legible : Legible Breaks text (sign :: signs)) (head : heads ['>', '='] text)
    (read : Settles level (· ∈ Kind.closers) (fun expr => rule.parse expr) (sign :: signs) value) :
    Fills level text value (sign :: signs) where
  legible := legible
  settles := (Leads.of_rule rule start read).settles (by decide : _ < Power.primary)
    fun kind listed => ⟨listed, (closers_stop level .closed .base kind listed).2⟩
  head := head

section Keywords

variable {level : FallbackLevel} {condition yes no body target : Expr}

theorem conditional_fills (quiet : (Form.conditional condition yes no).comments = [])
    (each : ∀ part ∈ (Form.conditional condition yes no).inside, part.Reread level) :
    ∃ signs, Fills level ("if " ++ condition.text ++ " then " ++ yes.text ++ " else " ++ no.text)
      (.bare (.conditional condition yes no)) signs := by
  simp only [Form.comments, List.append_eq_nil_iff] at quiet
  simp only [Form.inside, List.forall_mem_cons] at each
  obtain ⟨signs, first⟩ := each.1.fills quiet.1.1
  obtain ⟨signs', second⟩ := each.2.1.fills quiet.1.2
  obtain ⟨signs'', third⟩ := each.2.2.1.fills quiet.2
  refine ⟨.mark .kwIf :: (signs ++ .mark .kwThen :: (signs' ++ .mark .kwElse :: signs'')),
    .of_rule .conditional rfl ?_ ?_ ?_⟩
  · have wordIf : Legible EndsBlank "if " [.mark .kwIf] := .leading .kwIf (by decide)
    have wordThen : Legible EndsBlank " then " [.mark .kwThen] := .between .kwThen (by decide)
    have wordElse : Legible EndsBlank " else " [.mark .kwElse] := .between .kwElse (by decide)
    simpa using third.join (second.join (first.behind wordIf) wordThen rfl) wordElse rfl
  · exact heads_of_head 'i' (by simp) rfl
  · filter_upwards [first.settles, second.settles, third.settles] with
      levels read readYes readNo limit
    exact conditional_yields ((read limit).known (by decide)) ((readYes limit).known (by decide))
      (readNo limit)

theorem importing_fills (quiet : target.comments = []) (each : target.Reread level) :
    ∃ signs, Fills level ("import " ++ target.text) (.bare (.importing target)) signs := by
  obtain ⟨signs, inner⟩ := each quiet
  refine ⟨.mark .kwImport :: signs, .of_rule .importing rfl ?_ ?_ ?_⟩
  · have word : Legible EndsBlank "import " [.mark .kwImport] := .leading .kwImport (by decide)
    exact inner.fills.behind word
  · exact heads_of_head 'i' (by simp) rfl
  · have read := inner.settles (target.fit.lt_tight (by decide)) (closers_stop level _ .application)
    filter_upwards [read] with levels read limit
    exact importing_yields (read limit)

theorem letIn_fills {entries : List Binding} (ready : Binding.Readable level entries)
    (quiet : body.comments = []) (each : body.Reread level) :
    ∃ signs, Fills level ("let" ++ Binding.text entries ++ " in " ++ body.text)
      (.bare (.letIn entries [] body)) signs := by
  obtain ⟨signs, row, starts, -⟩ :=
    Binding.row_reread (by decide : Kind.kwIn ∈ [Kind.curlyClose, .kwIn]) ready
  obtain ⟨signs', inner⟩ := each.fills quiet
  refine ⟨.mark .kwLet :: (signs ++ .mark .kwIn :: signs'), .of_rule .letIn rfl ?_ ?_ ?_⟩
  · have wordLet : Legible _ "let" _ := .reserved .kwLet (by decide)
    have wordIn : Legible EndsBlank " in " [.mark .kwIn] := .between .kwIn (by decide)
    have front := wordLet.append row.legible fun _ ends =>
      (breaks_of_spaced row.spaced ends).endsWord
    simpa using inner.join front wordIn rfl
  · exact heads_of_head 'l' (by simp) rfl
  · have entry : ∀ kind, kind = .kwIn → Sign.leadKind signs kind ≠ .curlyOpen := by
      rintro kind rfl same
      exact absurd (same ▸ starts .kwIn) (by decide)
    filter_upwards [row.settles, inner.settles] with levels readEntries readBody limit
    exact letIn_yields (readEntries limit) entry (readBody limit)

theorem lambda_fills {param : String} (identifier : isIdentifier param)
    (quiet : body.comments = []) (each : body.Reread level) :
    ∃ signs, Fills level (param ++ ": " ++ body.text) (.bare (.lambda param body)) signs := by
  obtain ⟨signs, inner⟩ := each.fills quiet
  refine ⟨⟨.identifier, param⟩ :: .mark .colon :: signs, .of_rule .name rfl ?_ ?_ ?_⟩
  · have colon : Legible EndsBlank ": " [.mark .colon] := .delimiterLeading .colon (by decide)
    have front := (Legible.identifier identifier).append colon fun _ _ => .of_head ':' rfl rfl
    exact inner.behind front
  · exact heads_append (heads_append (heads_identifier identifier) _) _
  · filter_upwards [inner.settles] with levels read limit
    exact name_lambda (lambda_named (read limit)) (by simp [Sign.mark])

/-- The text of a pattern in braces. -/
def Param.patternText (isOpen : Bool) (params : List Param) : String :=
  "\x7b" ++ (Param.text isOpen params ++ (if isOpen then " ..." else "") ++ " ") ++ "\x7d"

/-- A pattern is read back, and its first tokens show that it is one. -/
theorem pattern_reread (isOpen : Bool) {params : List Param} (ready : Param.Readable level params) :
    ∃ signs, Legible (fun _ => True) (Param.patternText isOpen params) (.mark .curlyOpen :: signs) ∧
      Settles level (· = .colon) (fun expr => pattern expr) (.mark .curlyOpen :: signs)
        { params, isOpen, inner := [] } ∧
      ∀ others, opensPattern (signs.map Sign.kind ++ .colon :: others) = true := by
  obtain ⟨signs, row, -, tells⟩ := Param.row_reread isOpen ready
  refine ⟨signs ++ Param.closing isOpen, ?_, ?_, tells⟩
  · cases isOpen with
    | false =>
        have inner := row.legible.blankBehind fun _ => .of_head ' ' rfl rfl
        have whole := inner.braces fun _ => .of_head '}' rfl rfl
        simpa [Param.patternText, Param.closing] using whole
    | true =>
        have dots : Legible _ "..." _ := .operator .ellipsis (by decide)
        have behind : Legible _ " ..." _ := dots.blankBefore (by decide)
        have front := row.legible.append behind fun _ _ => .of_head ' ' rfl rfl
        have inner := front.blankBehind fun _ => rfl
        have whole := inner.braces fun _ => .of_head '}' rfl rfl
        simpa [Param.patternText, Param.closing] using whole
  · cases isOpen with
    | false =>
        filter_upwards [row.settles] with levels read limit
        exact pattern_yields (read limit)
    | true =>
        filter_upwards [row.settles] with levels read limit
        exact pattern_open (read limit)

/-- A function of a set. -/
theorem patternLambda_fills (isOpen : Bool) {params : List Param}
    (ready : Param.Readable level params) (quiet : body.comments = []) (each : body.Reread level) :
    ∃ signs, Fills level (Param.patternText isOpen params ++ ": " ++ body.text)
      (.bare (.patternLambda params isOpen none [] body)) signs := by
  obtain ⟨signs, legible, settles, tells⟩ := pattern_reread isOpen ready
  obtain ⟨signs', inner⟩ := each.fills quiet
  have colon : Legible EndsBlank ": " [.mark .colon] := .delimiterLeading .colon (by decide)
  refine ⟨.mark .curlyOpen :: (signs ++ .mark .colon :: signs'), .of_rule .braces rfl ?_ ?_ ?_⟩
  · simpa using inner.behind (legible.append colon fun _ _ => trivial)
  · exact heads_of_head '{' (by simp [Param.patternText]) rfl
  · filter_upwards [settles, inner.settles] with levels readPattern readBody limit
    have whole : Yields (· = .curlyOpen) wholeBefore [] none :=
      wholeBefore_none.known (by decide)
    have read := patternLambda_yields whole (readPattern limit) (readBody limit)
    apply braces_lambda (lambda_pattern read nofun)
    intro kind others _
    simpa [Sign.mark] using tells (signs'.map Sign.kind ++ kind :: others)

/-- A function of a set that has a name too. -/
theorem wholeLambda_fills {name : String} (identifier : isIdentifier name) (isOpen : Bool)
    {params : List Param} (ready : Param.Readable level params) (quiet : body.comments = [])
    (each : body.Reread level) :
    ∃ signs, Fills level (name ++ " @ " ++ Param.patternText isOpen params ++ ": " ++ body.text)
      (.bare (.patternLambda params isOpen (some name) [] body)) signs := by
  obtain ⟨signs, legible, settles, -⟩ := pattern_reread isOpen ready
  obtain ⟨signs', inner⟩ := each.fills quiet
  have colon : Legible EndsBlank ": " [.mark .colon] := .delimiterLeading .colon (by decide)
  have mark : Legible EndsBlank " @ " [.mark .atSign] := .delimiterBetween .atSign (by decide)
  have front := (Legible.identifier identifier).append mark fun _ _ => .of_head ' ' rfl rfl
  have named := front.append legible fun _ _ => .of_head '{' (by simp [Param.patternText]) rfl
  refine ⟨⟨.identifier, name⟩ :: .mark .atSign ::
    (.mark .curlyOpen :: signs ++ .mark .colon :: signs'), .of_rule .name rfl ?_ ?_ ?_⟩
  · simpa using inner.behind (named.append colon fun _ _ => trivial)
  · have head : heads ['>', '='] name := heads_identifier identifier
    exact heads_append (heads_append (heads_append (heads_append head _) _) _) _
  · filter_upwards [settles, inner.settles] with levels readPattern readBody limit
    have read := patternLambda_yields (wholeBefore_yields name) (readPattern limit) (readBody limit)
    apply name_lambda (lambda_pattern read _) (by simp [Sign.mark])
    simp [Sign.mark]

/-- A clause in front of what fills parentheses. -/
theorem clause_fills {text : String} {value subject : Expr} {signs : List Sign} (kind : ClauseKind)
    (inner : Fills level text value signs) (quiet : subject.comments = [])
    (each : subject.Reread level) :
    ∃ signs', Fills level (kind.word ++ " " ++ subject.text ++ "; " ++ text)
      (value.addClause { kind, subject }) signs' := by
  obtain ⟨signs', front⟩ := each.fills quiet
  refine ⟨.mark kind.kind :: (signs' ++ .mark .semicolon :: signs), ?_⟩
  have same : kind.word = kind.kind.spelling := by cases kind <;> rfl
  have listed : kind.kind ∈ Kind.reserved := by cases kind <;> decide
  have word : Legible EndsBlank (kind.word ++ " ") [.mark kind.kind] :=
    same ▸ .leading kind.kind listed
  have semicolon : Legible EndsBlank "; " [.mark .semicolon] :=
    .delimiterLeading .semicolon (by decide)
  apply Fills.of_rule .clause (by cases kind <;> rfl)
  · have middle := (front.behind word).append semicolon fun _ _ => .of_head ';' rfl rfl
    simpa using inner.behind middle
  · have head : heads ['>', '='] kind.word := by cases kind <;> decide
    exact heads_append (heads_append (heads_append (heads_append head _) _) _) _
  · filter_upwards [front.settles, inner.settles] with levels read readBody limit
    exact clause_yields ((read limit).known (by decide)) (readBody limit)

end Keywords

section Operators

variable {level : FallbackLevel} {fit : Fit} {front text : String} {left : Expr}
  {signs signs' : List Sign}

/-- An operator with an expression on its left fills its parentheses. -/
theorem Fills.of_join {node : Expr} {sign : Sign} {power : Power} {rule : JoinRule}
    (inner : Rereads level fit front left signs)
    (joins : Grammar.standardJoin level sign.kind = some (power, rule))
    (tighter : .base < power) (other : sign.kind ∉ fit.continues)
    (legible : Legible Breaks (front ++ text) (signs ++ sign :: signs'))
    (read : Settles level (· ∈ Kind.closers)
      (fun expr => rule.parse (.standard level) expr left power) (sign :: signs') node) :
    Fills level (front ++ text) node (signs ++ sign :: signs') where
  legible := legible
  settles := inner.leads.join (fit.lt_tight (by decide)) other joins tighter read
    fun kind listed => (closers_stop level fit .base kind listed).2
  head := heads_append inner.head text

/-- An application. -/
theorem apply_fills {arguments : List Expr} (inner : Rereads level fit front left signs)
    (other : ∀ kind ∈ Kind.argumentStart, kind ∉ fit.continues) (present : arguments ≠ [])
    (quiet : Expr.allComments arguments = []) (each : ∀ part ∈ arguments, part.Reread level) :
    ∃ signs', Fills level (front ++ Expr.arguments arguments) (.bare (.apply left arguments))
      signs' := by
  obtain ⟨signs', row, starts⟩ := Expr.arguments_reread quiet each
  cases signs' with
  | nil => exact absurd (starts present .endOfInput) (by decide)
  | cons sign signs' =>
      have start : sign.kind ∈ Kind.argumentStart := starts present .endOfInput
      have known : ∀ kind ∈ Kind.argumentStart,
          Grammar.standardJoin level kind = some (.application, .apply) := by
        cases level <;> decide
      refine ⟨signs ++ sign :: signs',
        .of_join inner (known _ start) (by decide) (other _ start) ?_ ?_⟩
      · exact inner.fills.legible.append row.legible fun _ => breaks_of_spaced row.spaced
      · filter_upwards [row.settles] with levels read limit
        exact apply_yields (read limit)

/-- A test for an attribute. -/
theorem hasAttr_fills {path : List Segment} (inner : Rereads level fit front left signs)
    (other : .question ∉ fit.continues) (present : path ≠ [])
    (ready : Segment.Readable level path) :
    ∃ signs', Fills level (front ++ (" ? " ++ ".".intercalate (Segment.texts path)))
      (.bare (.hasAttr left path)) signs' := by
  cases path with
  | nil => exact absurd rfl present
  | cons first path =>
      obtain ⟨signs', read⟩ := Segment.path_reread ready
      refine ⟨signs ++ .mark .question :: signs', .of_join inner rfl (by decide) other ?_ ?_⟩
      · have mark : Legible EndsBlank " ? " [.mark .question] :=
          .delimiterBetween .question (by decide)
        have back := mark.append (read.legible.mono fun _ => Breaks.endsWord)
          fun rest _ => endsBlank_of_heads read.head rest
        exact inner.fills.legible.append back fun _ _ => .of_head ' ' (by simp) rfl
      · have dotless : ∀ kind ∈ Kind.closers, kind ≠ .dot := by decide
        filter_upwards [read.settles] with levels read limit
        exact hasAttr_yields ((read limit).mono dotless)

theorem operator_legible (op : BinaryOp) :
    Legible EndsBlank (" " ++ (op.spelling ++ " ")) [.mark op.kind] := by
  have same : op.spelling = op.kind.spelling := by cases op <;> rfl
  have known : op.kind ∈ Kind.standsOff ∨ op.kind ∈ Kind.reserved := by cases op <;> decide
  rw [same]
  rcases known with symbol | word
  · exact .operatorBetween _ symbol
  · exact .between _ word

/-- An operator between two operands. -/
theorem binary_fills (op : BinaryOp) {right : Expr} (inner : Rereads level fit front left signs)
    (other : op.kind ∉ fit.continues) (below : op.operandPower level < right.fit.tight)
    (quiet : right.comments = []) (each : right.Reread level) :
    ∃ signs', Fills level (front ++ (" " ++ (op.spelling ++ " ") ++ right.text))
      (.bare (.binary op left right)) signs' := by
  obtain ⟨signs', operand⟩ := each quiet
  have tighter := op.base_lt_power level
  refine ⟨signs ++ .mark op.kind :: signs',
    .of_join inner (op.join_kind level) tighter other ?_ ?_⟩
  · exact inner.fills.legible.append (operand.fills.behind (operator_legible op))
      fun _ _ => .of_head ' ' (by simp) rfl
  · filter_upwards [operand.settles below (closers_stop level _ _)] with levels read limit
    apply binary_yields (read limit)
    -- No operator stands behind, so none that may not be chained does.
    intro kind listed _ same
    exact (closers_stop level fit .base kind listed).2 (same ▸ tighter)

/-- A selection from an expression that a dot does not continue. -/
theorem select_reread {path : List Segment} (inner : Rereads level .closed front left signs)
    (present : path ≠ []) (ready : Segment.Readable level path) :
    ∃ signs', Rereads level .selected (front ++ ("." ++ ".".intercalate (Segment.texts path)))
      (.bare (.select left path)) signs' := by
  cases path with
  | nil => exact absurd rfl present
  | cons first path =>
      obtain ⟨signs', read⟩ := Segment.path_reread ready
      have slashless := Slashless.append (.of_free (by decide : '/' ∉ ".".toList)) read.slashless
      exact ⟨signs ++ .mark .dot :: signs', {
        legible := by
          -- The dot would be lost to a path if a run with a slash started at it.
          have dotted := Legible.dot.append read.legible fun rest ends =>
            ⟨read.slashless rest ends.2, head_ne_of_heads read.head (by decide) rest⟩
          refine inner.legible.append (dotted.mono fun _ => Breaks.endsWord) fun rest ends => ?_
          refine ⟨?_, slashless rest ends.endsWord.2⟩
          rw [String.toList_append]
          rintro c ⟨⟩
          decide
        leads := by
          apply inner.leads.select (by decide) (read.settles.mono _)
          rintro kind other rfl
          exact other (by decide)
        starts := fun kind => by
          rw [Sign.leadKind_append]
          exact inner.starts _
        head := heads_append inner.head _
        slashless := fun _ => (inner.slashless (by decide)).append slashless }⟩

end Operators

end NixSyntax
