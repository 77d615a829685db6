/-
Module: NixSyntax.Proofs.Rows
Purpose: Printed elements, arguments, entries and parameters are read back.
Main exports: RowText, Expr.items_reread, Expr.arguments_reread, Binding.row_reread,
  Param.row_reread
-/
import NixSyntax.Proofs.Printed

namespace NixSyntax

open NixSyntax.Parser

/-!
Lists in a tree are printed in rows, with a blank in front of each item.  The
induction runs over the items from the last to the first, since an item is read
up to the token that the rest of the row starts with.
-/

/-! ## Rows -/

/-- Texts in a row, each with a blank in front, are read back one after another.
`follow` is what may stand behind each of them, and `stop` what stands behind the
row. -/
structure RowText {α : Type} (level : FallbackLevel) (stop follow : Kind → Prop)
    (step : ExprParser → Parser (Option α)) (text : String) (items : List α) (signs : List Sign) :
    Prop where
  legible : Legible Breaks text signs
  spaced : Spaced text
  settles : SettlesMany level stop step signs items
  starts : ∀ kind, stop kind → follow (Sign.leadKind signs kind)

namespace RowText

variable {α : Type} {level : FallbackLevel} {stop follow follow' : Kind → Prop}
  {step : ExprParser → Parser (Option α)} {text text' : String} {item : α} {items : List α}
  {signs signs' : List Sign}

theorem nil (stops : Settles level stop step [] none) (meets : ∀ kind, stop kind → follow kind) :
    RowText level stop follow step "" [] [] where
  legible := .empty
  spaced := nofun
  settles := .nil stops
  starts := meets

theorem cons (legible : Legible Breaks text signs) (head : heads [] text) (present : signs ≠ [])
    (first : Settles level follow step signs (some item))
    (starts : ∀ kind, follow' (Sign.leadKind signs kind))
    (row : RowText level stop follow step text' items signs') :
    RowText level stop follow' step (" " ++ text ++ text') (item :: items) (signs ++ signs') where
  legible := (legible.blankBefore head).append row.legible fun _ => breaks_of_spaced row.spaced
  spaced := by simp [Spaced]
  settles := .cons first present row.settles row.starts
  starts := fun kind _ => by
    rw [Sign.leadKind_append]
    exact starts _

end RowText

/-- Some kind cannot lead the signs, so there are some. -/
theorem Sign.ne_nil {signs : List Sign} {kinds : List Kind} (kind : Kind) (other : kind ∉ kinds)
    (starts : Sign.leadKind signs kind ∈ kinds) : signs ≠ [] := by
  rintro rfl
  exact other starts

/-- The kinds behind an argument of a function. -/
def Kind.behindArgument : List Kind :=
  closers ++ argumentStart

/-- No expression starts with what ends a list. -/
theorem Fit.starts_open (fit : Fit) :
    ∀ kind ∈ fit.starts, kind ∉ [Kind.bracketClose, .endOfInput] := by
  cases fit <;> decide

/-- What fits as an argument starts and goes on like one. -/
theorem Fit.argument {fit : Fit} (bare : ¬ fit.IsPrefixed) :
    fit.starts = Kind.argumentStart ∧ fit.continues ⊆ [.dot, .colon, .atSign] := by
  cases fit with
  | closed | plain | selected | path => exact ⟨rfl, by decide⟩
  | negated | inverted | hanging => exact absurd (by simp [IsPrefixed]) bare

namespace Expr

variable {level : FallbackLevel} {value : Expr} {values : List Expr}

/-- Where elements follow each other, the operand of a `!` does not take the next
one for an argument of its own. -/
def Apart (values : List Expr) : Prop :=
  values.IsChain fun value next => value.hangs → next.startsWithNot

/-- The kinds that elements start with, and what ends the list behind them. -/
def leads : List Expr → List Kind
  | [] => [.bracketClose]
  | value :: _ => value.fit.starts

/-- An element ends where the next one starts. -/
theorem apart_stops (apart : Apart (value :: values)) :
    ∀ kind ∈ leads values, kind ∉ value.fit.continues ∧
      ¬ Power.application < (Grammar.standard level).power kind := by
  have known : ∀ kind ∈ Kind.bracketClose :: .not :: .dash :: Kind.argumentStart,
      ¬ Power.application < (Grammar.standard level).power kind := by
    cases level <;> decide
  have starts : ∀ fit : Fit, fit.starts ⊆ Kind.not :: .dash :: Kind.argumentStart := by
    intro fit
    cases fit <;> decide
  cases values with
  | nil =>
      refine List.forall_mem_singleton.2 ⟨?_, known _ List.mem_cons_self⟩
      cases value.fit <;> decide
  | cons next values =>
      refine fun kind listed =>
        ⟨?_, known kind (List.mem_cons_of_mem _ (starts next.fit listed))⟩
      by_cases hanging : value.fit ∈ [.inverted, .hanging]
      · have inverted : next.fit = .inverted :=
          fit_of_startsWithNot ((List.isChain_cons_cons.1 apart).1 (value.hangs_iff.2 hanging))
        rw [leads, inverted, Fit.starts, List.mem_singleton] at listed
        subst listed
        cases value.fit <;> decide
      · have others : ∀ kind ∈ Kind.not :: .dash :: Kind.argumentStart,
            kind ∉ [Kind.dot, .colon, .atSign, .kwOr] := by
          decide
        exact mt (@Fit.continues_subset _ hanging kind) (others kind (starts next.fit listed))

/-- The elements of a list are read back. -/
theorem items_reread (quiet : allComments values = []) (each : ∀ value ∈ values, value.Reread level)
    (apart : Apart values) :
    ∃ signs, RowText level (· = .bracketClose) (· ∈ leads values) (fun expr => element expr)
      (items values) values signs := by
  induction values with
  | nil => exact ⟨[], .nil (.of_forall fun _ _ => element_stops) (by simp [leads])⟩
  | cons value values ih =>
      rw [allComments, List.append_eq_nil_iff] at quiet
      obtain ⟨good, others⟩ := List.forall_mem_cons.1 each
      obtain ⟨signs, inner⟩ := good quiet.1
      obtain ⟨signs', row⟩ := ih quiet.2 others apart.tail
      have first : Settles level (· ∈ leads values) (fun expr => element expr) signs
          (some value) := by
        filter_upwards [inner.settles (value.fit.lt_tight (by decide)) (apart_stops apart)] with
          levels read limit
        exact element_yields (read limit) fun kind => value.fit.starts_open _ (inner.starts kind)
      have present : signs ≠ [] := by
        rintro rfl
        exact value.fit.starts_open _ (inner.starts .endOfInput) (by decide)
      refine ⟨signs ++ signs', ?_⟩
      exact .cons inner.fills.legible (heads_mono inner.head (by simp)) present first inner.starts
        row

/-- The arguments of a function are read back. -/
theorem arguments_reread (quiet : allComments values = [])
    (each : ∀ value ∈ values, value.Reread level) :
    ∃ signs, RowText level (· ∈ Kind.closers) (· ∈ Kind.behindArgument) (fun expr => argument expr)
        (arguments values) values signs ∧
      (values ≠ [] → ∀ kind, Sign.leadKind signs kind ∈ Kind.argumentStart) := by
  induction values with
  | nil =>
      have ends : ∀ kind ∈ Kind.closers, kind ∉ Kind.argumentStart := by decide
      have stops : Settles level (· ∈ Kind.closers) (fun expr => argument expr) [] none :=
        .of_forall fun _ _ => argument_stops.mono ends
      exact ⟨[], .nil stops fun _ => List.mem_append_left _, fun present => absurd rfl present⟩
  | cons value values ih =>
      rw [allComments, List.append_eq_nil_iff] at quiet
      obtain ⟨good, others⟩ := List.forall_mem_cons.1 each
      obtain ⟨signs, inner⟩ := good.group quiet.1 value.form.isUnary
      obtain ⟨signs', row, -⟩ := ih quiet.2 others
      have starts : ∀ kind, Sign.leadKind signs kind ∈ Kind.argumentStart := by
        rw [← (Fit.argument value.fit_argument).1]
        exact inner.starts
      have known : ∀ kind ∈ Kind.behindArgument, kind ∉ [Kind.dot, .colon, .atSign] ∧
          ¬ Power.application < (Grammar.standard level).power kind := by
        cases level <;> decide
      have stops := fun kind listed =>
        And.imp_left (mt (@(Fit.argument value.fit_argument).2 kind)) (known kind listed)
      have first : Settles level (· ∈ Kind.behindArgument) (fun expr => argument expr) signs
          (some value) := by
        filter_upwards [inner.settles (Fit.lt_tight _ (by decide)) stops] with levels read limit
        exact argument_yields (read limit) starts
      refine ⟨signs ++ signs', ?_, fun _ kind => by
        rw [Sign.leadKind_append]
        exact starts _⟩
      exact .cons inner.fills.legible (heads_mono inner.head (by simp))
        (Sign.ne_nil .endOfInput (by decide) (starts _)) first
        (fun kind => List.mem_append_right _ (starts kind)) row

/-- An expression without comments is printed without any. -/
theorem margin_quiet {value : Expr} (quiet : value.comments = []) :
    value.margin = {} ∧ value.text = value.body := by
  obtain ⟨clauses, form, before, after⟩ := value
  simp only [comments, List.append_eq_nil_iff] at quiet
  obtain ⟨⟨⟨rfl, -⟩, -⟩, rfl⟩ := quiet
  refine ⟨rfl, ?_⟩
  simp [text, surround, ownLines, leavesLine, afterNode, group]

end Expr

/-! ## Entries -/

/-- Text in the path of an entry, or in the names it inherits, leaves its dollar
signs to itself. -/
def Binding.Paired : Binding → Prop
  | .assign path _ _ => ∀ segment ∈ path, segment.Paired
  | .inherit _ names _ => ∀ segment ∈ names, segment.Paired

def Binding.Readable (level : FallbackLevel) : List Binding → Prop :=
  NixSyntax.Readable level (fun entry => entry.WellFormed ∧ entry.Paired) comments inside

/-- The text of an entry is read back, and its first tokens are not taken for
parameters. -/
structure EntryText (level : FallbackLevel) (close : Kind) (text : String) (entry : Binding)
    (signs : List Sign) : Prop where
  legible : Legible Breaks text signs
  head : heads [] text
  settles : Settles level (fun _ => True) (fun expr => binding expr close) signs (some entry)
  tells : ∀ others, opensPattern (signs.map Sign.kind ++ others) = false
  starts : ∀ kind, Sign.leadKind signs kind ∈ Kind.bindingStart

namespace Binding

variable {level : FallbackLevel} {close : Kind}

theorem Readable.intro {entries : List Binding} (wellFormed : ∀ entry ∈ entries, entry.WellFormed)
    (paired : ∀ entry ∈ entries, entry.Paired) (quiet : comments entries = [])
    (each : ∀ part ∈ inside entries, part.Reread level) : Readable level entries :=
  ⟨fun entry member => ⟨wellFormed entry member, paired entry member⟩, quiet, each⟩

theorem Readable.split {entry : Binding} {entries : List Binding}
    (ready : Readable level (entry :: entries)) : Readable level [entry] ∧ Readable level entries :=
  NixSyntax.Readable.split comments_cons inside_cons ready

theorem lead_assigns {segment : Segment} (wellFormed : segment.WellFormed)
    (other : ¬ segment.IsOr) :
    segment.lead ∈ [Kind.identifier, .interpOpen, .quoteOpen] := by
  cases segment with
  | name text =>
      rcases wellFormed with identifier | same
      · simp [Segment.lead, (isIdentifier_iff.1 identifier).2]
      · exact absurd same other
  | computed value => simp [Segment.lead]
  | quoted parts => simp [Segment.lead]

/-- An entry that assigns is read back. -/
theorem assign_reread {path : List Segment} {value : Expr}
    (listed : close ∈ [Kind.curlyClose, .kwIn]) (present : path ≠ [])
    (start : ∀ first ∈ path.head?, ¬ first.IsOr) (ready : Segment.Readable level path)
    (quiet : value.comments = []) (good : value.Reread level) :
    ∃ signs, EntryText level close
      (".".intercalate (Segment.texts path) ++ " = " ++ value.text ++ ";") (.assign path value [])
      signs := by
  cases path with
  | nil => exact absurd rfl present
  | cons first path =>
      obtain ⟨signs, read⟩ := Segment.path_reread ready
      obtain ⟨signs', inner⟩ := good.fills quiet
      have starts : ∀ kind, Sign.leadKind (signs ++ .mark .assign :: (signs' ++ [.mark .semicolon]))
          kind ∈ [Kind.identifier, .interpOpen, .quoteOpen] := by
        intro kind
        rw [Sign.leadKind_append, read.starts]
        exact lead_assigns (ready.good first List.mem_cons_self).1 (start first rfl)
      have starting : [Kind.identifier, .interpOpen, .quoteOpen] ⊆ Kind.bindingStart := by decide
      exact ⟨signs ++ .mark .assign :: (signs' ++ [.mark .semicolon]), {
        legible := by
          have equals : Legible EndsBlank " = " [.mark .assign] :=
            .operatorBetween .assign (by decide)
          have ending : Legible _ ";" _ := .delimiter .semicolon (by decide)
          have front := (read.legible.append equals fun _ _ => .of_head ' ' rfl rfl).append
            inner.legible fun rest _ => endsBlank_of_heads inner.head rest
          have whole := front.append ending fun _ _ => .of_head ';' rfl rfl
          simpa using whole.mono fun _ _ => trivial
        head := heads_append (heads_append (heads_append (heads_mono read.head (by simp)) _) _) _
        settles := by
          filter_upwards [read.settles, inner.settles] with levels readPath readValue limit
          apply binding_assigns _ starts listed
          exact assignment_yields ((readPath limit).known (by decide))
            ((readValue limit).known (by decide))
        tells := by
          intro others
          rw [List.map_append, List.append_assoc]
          exact read.tells .assign _ (by decide)
        starts := fun kind => starting (starts kind) }⟩

/-- The names that are inherited behind the first are read back. -/
theorem names_reread {names : List Segment} (ready : Segment.Readable level names) :
    ∃ signs, RowText level (· = .semicolon) (fun _ => True) (fun expr => inheritedName expr)
      (String.join ((Segment.texts names).map (" " ++ ·))) names signs := by
  induction names with
  | nil => exact ⟨[], .nil (.of_forall fun _ _ => inheritedName_stops) fun _ _ => trivial⟩
  | cons segment names ih =>
      obtain ⟨first, others⟩ := ready.split
      obtain ⟨text, signs, same, read⟩ := Segment.reread first
      obtain ⟨signs', row⟩ := ih others
      rw [Segment.texts_cons, same, List.singleton_append, List.map_cons, String.join_cons]
      have starts : ∀ kind, Sign.leadKind signs kind ∈
          [Kind.identifier, .kwOr, .interpOpen, .quoteOpen] :=
        fun kind => read.starts kind ▸ first.lead
      have settles : Settles level (fun _ => True) (fun expr => inheritedName expr) signs
          (some segment) := by
        filter_upwards [read.settles] with levels read limit
        apply inheritedName_yields (read limit)
        intro kind same
        exact absurd (same ▸ starts kind) (by decide)
      exact ⟨signs ++ signs', .cons (read.legible.mono fun _ => Breaks.endsWord)
        (heads_mono read.head (by simp)) (Sign.ne_nil .endOfInput (by decide) (starts _)) settles
        (fun _ => trivial) row⟩

/-- The text of the set that names are inherited from. -/
def originText (source : Option Expr) : String :=
  match Expr.optionText source with
  | some text => " " ++ parens text
  | none => ""

theorem origin_reread {source : Option Expr} (quiet : Expr.optionComments source = [])
    (each : ∀ part ∈ source.toList, part.Reread level) :
    ∃ signs, Legible Breaks (originText source) signs ∧ Spaced (originText source) ∧
      Settles level (· ≠ .parenOpen) (fun expr => inheritSource expr) signs source := by
  cases source with
  | none => exact ⟨[], .empty, nofun, .of_forall fun _ _ => inheritSource_none⟩
  | some value =>
      obtain ⟨signs, inner⟩ := (each value (by simp)).fills quiet
      refine ⟨_, (inner.parens.legible.mono fun _ => Breaks.endsWord).blankBefore
        (heads_mono inner.parens.head (by simp)), by simp [Spaced, originText, Expr.optionText], ?_⟩
      filter_upwards [inner.settles] with levels read limit
      exact inheritSource_yields ((read limit).known (by decide))

/-- An entry that inherits is read back. -/
theorem inherit_reread {source : Option Expr} {names : List Segment}
    (listed : close ∈ [Kind.curlyClose, .kwIn]) (present : names ≠ [])
    (ready : Segment.Readable level names) (quiet : Expr.optionComments source = [])
    (each : ∀ part ∈ source.toList, part.Reread level) :
    ∃ signs, EntryText level close
      ("inherit" ++ originText source ++ String.join ((Segment.texts names).map (" " ++ ·)) ++ ";")
      (.inherit source names []) signs := by
  cases names with
  | nil => exact absurd rfl present
  | cons name names =>
      obtain ⟨first, others⟩ := ready.split
      obtain ⟨signs, origin, spaced, settles⟩ := origin_reread quiet each
      obtain ⟨text, signs', same, read⟩ := Segment.reread first
      obtain ⟨signs'', row⟩ := names_reread others
      rw [Segment.texts_cons, same, List.singleton_append, List.map_cons, String.join_cons]
      exact ⟨.mark .kwInherit :: (signs ++ (signs' ++ (signs'' ++ [.mark .semicolon]))), {
        legible := by
          have word : Legible _ "inherit" _ := .reserved .kwInherit (by decide)
          have ending : Legible _ ";" _ := .delimiter .semicolon (by decide)
          have name := (read.legible.mono fun _ => Breaks.endsWord).blankBefore
            (heads_mono read.head (by simp))
          have front := word.append origin fun _ ends => (breaks_of_spaced spaced ends).endsWord
          have names := name.append row.legible fun _ => breaks_of_spaced row.spaced
          have both := front.append names fun _ _ => .of_head ' ' (by simp) rfl
          have whole := both.append ending fun _ _ => .of_head ';' rfl rfl
          simpa using whole.mono fun _ _ => trivial
        head := heads_append (heads_append (heads_append (by decide) _) _) _
        settles := by
          filter_upwards [settles, read.settles, row.settles] with levels readSource readName
            readNames limit
          apply binding_inherits _ listed
          apply inheritance_yields (readSource limit) (readName limit) _ (readNames limit)
          intro kind same
          exact absurd (same ▸ read.starts kind ▸ first.lead) (by decide)
        tells := fun _ => rfl
        starts := fun _ => show Kind.kwInherit ∈ Kind.bindingStart by decide }⟩

/-- An entry is read back from its text, which stands behind a blank. -/
theorem reread {entry : Binding} (listed : close ∈ [Kind.curlyClose, .kwIn])
    (ready : Readable level [entry]) :
    ∃ printed signs, EntryText level close printed entry signs ∧
      ∀ entries, text (entry :: entries) = " " ++ printed ++ text entries := by
  obtain ⟨good, quiet, each⟩ := ready
  obtain ⟨wellFormed, paired⟩ := good entry List.mem_cons_self
  cases entry with
  | assign path value own =>
      simp only [comments, List.append_eq_nil_iff, List.append_nil] at quiet
      obtain ⟨⟨rfl, quietPath⟩, quiet⟩ := quiet
      rw [inside, inside, List.forall_mem_append, List.forall_mem_singleton] at each
      obtain ⟨⟨present, wellFormed⟩, start⟩ := wellFormed
      have path := Segment.Readable.intro wellFormed paired quietPath each.1
      obtain ⟨signs, read⟩ := assign_reread listed present start path quiet each.2
      obtain ⟨margin, bare⟩ := Expr.margin_quiet quiet
      refine ⟨_, signs, read, ?_⟩
      intro entries
      simp [text, margin, bare, ownLines, leavesLine, afterNode, String.append_assoc]
  | inherit source names own =>
      simp only [comments, List.append_eq_nil_iff, List.append_nil] at quiet
      obtain ⟨⟨rfl, quiet⟩, quietNames⟩ := quiet
      rw [inside, inside, List.append_nil, List.forall_mem_append] at each
      obtain ⟨present, wellFormed⟩ := wellFormed
      have inherited := Segment.Readable.intro wellFormed paired quietNames each.2
      obtain ⟨signs, read⟩ := inherit_reread listed present inherited quiet each.1
      refine ⟨_, signs, read, ?_⟩
      intro entries
      simp [text, originText, ownLines, String.append_assoc]
      rfl

/-- Entries are read back. -/
theorem row_reread {entries : List Binding} (listed : close ∈ [Kind.curlyClose, .kwIn])
    (ready : Readable level entries) :
    ∃ signs, RowText level (· = close) (fun _ => True) (fun expr => binding expr close)
        (text entries) entries signs ∧
      (∀ kind, Sign.leadKind signs kind ∈ kind :: Kind.bindingStart) ∧
      ∀ kind others, kind ∉ [Kind.colon, .atSign] →
        opensPattern (signs.map Sign.kind ++ .curlyClose :: kind :: others) = false := by
  induction entries with
  | nil =>
      refine ⟨[], .nil (.of_forall fun _ _ => binding_stops close) fun _ _ => trivial, by simp, ?_⟩
      intro kind others other
      cases kind <;> first | rfl | simp at other
  | cons entry entries ih =>
      obtain ⟨first, others⟩ := ready.split
      obtain ⟨printed, signs, read, front⟩ := reread listed first
      obtain ⟨signs', row, -, -⟩ := ih others
      refine ⟨signs ++ signs', ?_, ?_, ?_⟩
      · rw [front]
        exact .cons read.legible read.head (Sign.ne_nil .endOfInput (by decide) (read.starts _))
          read.settles (fun _ => trivial) row
      · intro kind
        rw [Sign.leadKind_append]
        exact List.mem_cons_of_mem _ (read.starts _)
      · intro kind others _
        rw [List.map_append, List.append_assoc]
        exact read.tells _

end Binding

/-! ## Parameters -/

/-- The text of the default of a parameter. -/
def Param.defaultText (default : Option Expr) : String :=
  match Expr.optionText default with
  | some text => " ? " ++ text
  | none => ""

/-- The kinds behind a parameter with a comma and without one. -/
def Param.follow (comma : Bool) (kind : Kind) : Prop :=
  comma ∨ kind = .curlyClose

/-- The kind behind the parameters of a pattern. -/
def Param.stop (isOpen : Bool) : Kind :=
  if isOpen then .ellipsis else .curlyClose

/-- The signs behind the parameters of a pattern. -/
def Param.closing (isOpen : Bool) : List Sign :=
  if isOpen then [.mark .ellipsis, .mark .curlyClose] else [.mark .curlyClose]

def Param.Readable (level : FallbackLevel) : List Param → Prop :=
  NixSyntax.Readable level (fun param => isIdentifier param.name) comments inside

namespace Param

variable {level : FallbackLevel}

theorem Readable.split {param : Param} {params : List Param}
    (ready : Readable level (param :: params)) :
    Readable level [param] ∧ Readable level params :=
  NixSyntax.Readable.split comments_cons inside_cons ready

/-- A default is read back. -/
theorem default_reread {default : Option Expr} (quiet : Expr.optionComments default = [])
    (each : ∀ part ∈ default.toList, part.Reread level) :
    ∃ signs, Legible Breaks (defaultText default) signs ∧ Spaced (defaultText default) ∧
      Settles level (· ∈ [Kind.comma, .curlyClose]) (fun expr => paramDefault expr) signs default ∧
      ∀ sign ∈ signs.head?, sign.kind = .question := by
  cases default with
  | none =>
      refine ⟨[], .empty, nofun, .of_forall fun _ _ => ?_, nofun⟩
      exact paramDefault_none.mono (by simp)
  | some value =>
      obtain ⟨signs, inner⟩ := (each value (by simp)).fills quiet
      have mark : Legible EndsBlank " ? " [.mark .question] :=
        .delimiterBetween .question (by decide)
      refine ⟨.mark .question :: signs,
        mark.append inner.legible fun rest _ => endsBlank_of_heads inner.head rest,
        by simp [Spaced, defaultText, Expr.optionText], ?_, by simp [Sign.mark]⟩
      have closing : [Kind.comma, .curlyClose] ⊆ Kind.closers := by decide
      filter_upwards [inner.settles] with levels read limit
      exact paramDefault_yields ((read limit).mono fun _ listed => closing listed)

/-- A parameter is read back.  Without a comma it has to be the last one. -/
theorem reread {name : String} {default : Option Expr} (comma : Bool)
    (identifier : isIdentifier name) (quiet : Expr.optionComments default = [])
    (each : ∀ part ∈ default.toList, part.Reread level) :
    ∃ signs,
      Legible Breaks (name ++ defaultText default ++ if comma then "," else "")
        (⟨.identifier, name⟩ :: signs) ∧
      Settles level (follow comma) (fun expr => nextParam expr) (⟨.identifier, name⟩ :: signs)
        (some { name, default, margin := {} }) ∧
      ∀ others, (comma ∨ others.take 2 = [.curlyClose, .colon]) →
        opensPattern (.identifier :: (signs.map Sign.kind ++ others)) = true := by
  obtain ⟨signs, legible, spaced, settles, starts⟩ := default_reread quiet each
  have word : Legible EndsWord name _ := .identifier identifier
  have front := word.append legible fun _ ends => (breaks_of_spaced spaced ends).endsWord
  cases comma with
  | true =>
      have mark : Legible _ "," _ := .delimiter .comma (by decide)
      refine ⟨signs ++ [.mark .comma], ?_, ?_, ?_⟩
      · have whole := front.append mark fun _ _ => .of_head ',' rfl rfl
        simpa using whole.mono fun _ _ => trivial
      · filter_upwards [settles] with levels read limit
        exact nextParam_yields (param_yields ((read limit).known (by decide)))
      · intro others _
        cases signs with
        | nil => rfl
        | cons sign signs =>
            have question : sign.kind = .question := starts sign rfl
            simp [question, opensPattern]
  | false =>
      refine ⟨signs, ?_, ?_, ?_⟩
      · simpa using front
      · filter_upwards [settles] with levels read limit
        have last : Yields (· = .curlyClose) (param _) (⟨.identifier, name⟩ :: signs) _ :=
          param_last ((read limit).known (by decide))
        exact (nextParam_yields last).mono (by simp [follow])
      · intro others ends
        cases signs with
        | nil =>
            have shape := ends.resolve_left Bool.false_ne_true
            rcases others with _ | ⟨first, _ | ⟨second, rest⟩⟩ <;> cases shape
            rfl
        | cons sign signs =>
            have question : sign.kind = .question := starts sign rfl
            simp [question, opensPattern]

theorem text_cons (isOpen : Bool) (name : String) (default : Option Expr) (params : List Param) :
    text isOpen ({ name, default, margin := {} } :: params) =
      " " ++ (name ++ defaultText default ++ if !params.isEmpty || isOpen then "," else "") ++
        text isOpen params := by
  cases default <;>
    simp [text, defaultText, Expr.optionText, ownLines, afterNode, String.append_assoc]

/-- Parameters are read back, and taken for such. -/
theorem row_reread (isOpen : Bool) {params : List Param} (ready : Readable level params) :
    ∃ signs, RowText level (· = stop isOpen) (follow (!params.isEmpty || isOpen))
        (fun expr => nextParam expr) (text isOpen params) params signs ∧
      (params = [] → signs = []) ∧
      ∀ others, opensPattern ((signs ++ closing isOpen).map Sign.kind ++ .colon :: others) =
        true := by
  induction params with
  | nil =>
      have stops : Settles level (· = stop isOpen) (fun expr => nextParam expr) [] none :=
        .of_forall fun _ _ => nextParam_stops.known (by cases isOpen <;> decide)
      refine ⟨[], .nil stops ?_, fun _ => rfl, fun _ => by cases isOpen <;> rfl⟩
      rintro kind rfl
      cases isOpen <;> simp [follow, stop]
  | cons param params ih =>
      obtain ⟨first, others⟩ := ready.split
      obtain ⟨identifier, quiet, each⟩ := first
      rw [List.forall_mem_singleton] at identifier
      obtain ⟨name, default, before, after⟩ := param
      simp only [comments, List.append_eq_nil_iff, List.append_nil] at quiet
      obtain ⟨⟨rfl, quiet⟩, rfl⟩ := quiet
      rw [inside, inside, List.append_nil] at each
      obtain ⟨signs, legible, settles, tells⟩ :=
        reread (!params.isEmpty || isOpen) identifier quiet each
      obtain ⟨signs', row, none, -⟩ := ih others
      refine ⟨⟨.identifier, name⟩ :: signs ++ signs', ?_, (absurd · (List.cons_ne_nil _ _)), ?_⟩
      · rw [text_cons]
        refine .cons legible ?_ (List.cons_ne_nil _ _) settles (by simp [follow]) row
        have head : heads [] name := heads_mono (heads_identifier identifier) (by simp)
        exact heads_append (heads_append head _) _
      · intro others
        -- Only the last parameter has no comma, and then the pattern is closed next.
        have ends : (!params.isEmpty || isOpen) ∨ ((signs' ++ closing isOpen).map Sign.kind ++
            .colon :: others).take 2 = [.curlyClose, .colon] := by
          cases params with
          | cons param params => exact .inl rfl
          | nil =>
              rw [none rfl]
              cases isOpen with
              | true => exact .inl rfl
              | false => exact .inr rfl
        simpa using tells _ ends

end Param

end NixSyntax
