/-
Module: NixSyntax.Proofs.Height
Purpose: How high a tree can be if the levels of its expressions are limited.
Main exports: Expr.height, Parser.expression_height, parseTokens_height
-/
import NixSyntax.Proofs.Forward
import NixSyntax.Proofs.Reread
import NixSyntax.Proofs.WellFormed

namespace NixSyntax

/-!
The limit of depth bounds how expressions nest while they are read, and not the
height of the tree.  An operator puts all that was read before one step deeper,
after the levels in it were given back.  So at each level the tree can grow
again by as many steps as levels are left, and the bound is a triangular number.
-/

/-! ## Height of trees -/

mutual

/-- The number of expressions on the longest way down the tree.  The path of an
attribute test counts as an expression. -/
def Expr.height : Expr → Nat
  | ⟨clauses, form, _⟩ => 1 + max (Clause.height clauses) form.height

def Clause.height : List Clause → Nat
  | [] => 0
  | ⟨_, subject⟩ :: rest => max subject.height (Clause.height rest)

def Form.height : Form → Nat
  | .int _ => 0
  | .float _ => 0
  | .bool _ => 0
  | .null => 0
  | .path _ => 0
  | .name path => Segment.height path
  | .string _ parts => StringPart.height parts
  | .list elements _ => Expr.allHeight elements
  | .attrs _ bindings _ => Binding.height bindings
  | .letIn bindings _ body => max (Binding.height bindings) body.height
  | .lambda _ body => body.height
  | .patternLambda params _ _ _ body => max (Param.height params) body.height
  | .apply function arguments => max function.height (Expr.allHeight arguments)
  | .binary _ left right => max left.height right.height
  | .hasAttr subject path => max subject.height (1 + Segment.height path)
  | .unary _ operand => operand.height
  | .select subject path => max subject.height (Segment.height path)
  | .conditional condition yes no => max condition.height (max yes.height no.height)
  | .importing target => target.height

def Segment.height : List Segment → Nat
  | [] => 0
  | .name _ :: rest => Segment.height rest
  | .computed value :: rest => max value.height (Segment.height rest)
  | .quoted parts :: rest => max (StringPart.height parts) (Segment.height rest)

def StringPart.height : List StringPart → Nat
  | [] => 0
  | .literal _ :: rest => StringPart.height rest
  | .interpolated value :: rest => max value.height (StringPart.height rest)

def Binding.height : List Binding → Nat
  | [] => 0
  | .assign path value _ :: rest =>
    max (Segment.height path) (max value.height (Binding.height rest))
  | .inherit source names _ :: rest =>
    max (Expr.optionHeight source) (max (Segment.height names) (Binding.height rest))

def Param.height : List Param → Nat
  | [] => 0
  | ⟨_, default, _⟩ :: rest => max (Expr.optionHeight default) (Param.height rest)

def Expr.allHeight : List Expr → Nat
  | [] => 0
  | value :: rest => max value.height (Expr.allHeight rest)

def Expr.optionHeight : Option Expr → Nat
  | none => 0
  | some value => value.height

end

variable {bound : Nat}

@[simp] theorem Expr.height_bare (form : Form) : (Expr.bare form).height = 1 + form.height := by
  simp [bare, height, Clause.height]

@[simp] theorem Expr.height_addBefore (value : Expr) (comments : List Comment) :
    (value.addBefore comments).height = value.height := by
  cases value
  simp [addBefore, height]

@[simp] theorem Expr.height_addAfter (value : Expr) (comments : List Comment) :
    (value.addAfter comments).height = value.height := by
  cases value
  simp [addAfter, height]

theorem Expr.height_addClause (value : Expr) (clause : Clause) :
    (value.addClause clause).height = max (1 + clause.subject.height) value.height := by
  cases value
  cases clause
  simp only [addClause, height, Clause.height]
  omega

/-! ### Heights of parts -/

theorem StringPart.height_le {parts : List StringPart}
    (low : ∀ part ∈ inside parts, part.height ≤ bound) : height parts ≤ bound := by
  induction parts with
  | nil => exact Nat.zero_le bound
  | cons part parts ih =>
      cases part with
      | literal text => exact ih low
      | interpolated value =>
          obtain ⟨first, rest⟩ := List.forall_mem_cons.1 low
          exact Nat.max_le.2 ⟨first, ih rest⟩

theorem Segment.height_le {segments : List Segment}
    (low : ∀ part ∈ inside segments, part.height ≤ bound) : height segments ≤ bound := by
  induction segments with
  | nil => exact Nat.zero_le bound
  | cons segment segments ih =>
      cases segment with
      | name text => exact ih low
      | computed value =>
          obtain ⟨first, rest⟩ := List.forall_mem_cons.1 low
          exact Nat.max_le.2 ⟨first, ih rest⟩
      | quoted parts =>
          obtain ⟨first, rest⟩ := List.forall_mem_append.1 low
          exact Nat.max_le.2 ⟨StringPart.height_le first, ih rest⟩

theorem Expr.optionHeight_le {value : Option Expr}
    (low : ∀ part ∈ value.toList, part.height ≤ bound) : optionHeight value ≤ bound := by
  cases value with
  | none => exact Nat.zero_le bound
  | some value => exact low value List.mem_cons_self

theorem Expr.allHeight_le {values : List Expr} (low : ∀ part ∈ values, part.height ≤ bound) :
    allHeight values ≤ bound := by
  induction values with
  | nil => exact Nat.zero_le bound
  | cons value values ih =>
      obtain ⟨first, rest⟩ := List.forall_mem_cons.1 low
      exact Nat.max_le.2 ⟨first, ih rest⟩

theorem Binding.height_le {entries : List Binding}
    (low : ∀ part ∈ inside entries, part.height ≤ bound) : height entries ≤ bound := by
  induction entries with
  | nil => exact Nat.zero_le bound
  | cons entry entries ih =>
      cases entry with
      | assign path value comments =>
          obtain ⟨inPath, rest⟩ := List.forall_mem_append.1 low
          obtain ⟨first, rest⟩ := List.forall_mem_cons.1 rest
          exact Nat.max_le.2 ⟨Segment.height_le inPath, Nat.max_le.2 ⟨first, ih rest⟩⟩
      | inherit source names comments =>
          obtain ⟨inSource, rest⟩ := List.forall_mem_append.1 low
          obtain ⟨inNames, rest⟩ := List.forall_mem_append.1 rest
          exact Nat.max_le.2 ⟨Expr.optionHeight_le inSource,
            Nat.max_le.2 ⟨Segment.height_le inNames, ih rest⟩⟩

theorem Param.height_le {params : List Param}
    (low : ∀ part ∈ inside params, part.height ≤ bound) : height params ≤ bound := by
  induction params with
  | nil => exact Nat.zero_le bound
  | cons param params ih =>
      cases param
      obtain ⟨first, rest⟩ := List.forall_mem_append.1 low
      exact Nat.max_le.2 ⟨Expr.optionHeight_le first, ih rest⟩

/-- A form other than an attribute test is as high as what is inside it. -/
theorem Form.height_le {form : Form} (other : form.isTest = false)
    (low : ∀ part ∈ form.inside, part.height ≤ bound) : form.height ≤ bound := by
  cases form with
  | int | float | bool | null | path => exact Nat.zero_le bound
  | name path => exact Segment.height_le low
  | string indented parts => exact StringPart.height_le low
  | list elements inner => exact Expr.allHeight_le low
  | attrs recursive bindings inner => exact Binding.height_le low
  | letIn bindings inner body =>
      obtain ⟨entries, last⟩ := List.forall_mem_append.1 low
      exact Nat.max_le.2 ⟨Binding.height_le entries, last body List.mem_cons_self⟩
  | lambda param body => exact low body List.mem_cons_self
  | patternLambda params isOpen whole inner body =>
      obtain ⟨defaults, last⟩ := List.forall_mem_append.1 low
      exact Nat.max_le.2 ⟨Param.height_le defaults, last body List.mem_cons_self⟩
  | apply function arguments =>
      obtain ⟨first, rest⟩ := List.forall_mem_cons.1 low
      exact Nat.max_le.2 ⟨first, Expr.allHeight_le rest⟩
  | binary op left right =>
      obtain ⟨first, second⟩ := List.forall_mem_cons.1 low
      exact Nat.max_le.2 ⟨first, second right List.mem_cons_self⟩
  | hasAttr subject path => cases other
  | unary op operand => exact low operand List.mem_cons_self
  | select subject path =>
      obtain ⟨first, rest⟩ := List.forall_mem_cons.1 low
      exact Nat.max_le.2 ⟨first, Segment.height_le rest⟩
  | conditional condition yes no =>
      obtain ⟨first, rest⟩ := List.forall_mem_cons.1 low
      obtain ⟨second, third⟩ := List.forall_mem_cons.1 rest
      exact Nat.max_le.2 ⟨first, Nat.max_le.2 ⟨second, third no List.mem_cons_self⟩⟩
  | importing target => exact low target List.mem_cons_self

/-- A node on top of `left` is one step higher, if the other expressions inside
it are lower. -/
theorem Form.height_join_le {form : Form} {left : Expr} {others : List Expr} {height : Nat}
    (shape : form.inside = left :: others) (low : left.height ≤ height)
    (lower : ∀ part ∈ others, part.height ≤ bound) (room : bound + 1 ≤ height) :
    form.height ≤ height := by
  cases test : form.isTest with
  | false =>
      apply Form.height_le test
      rw [shape]
      exact List.forall_mem_cons.2 ⟨low, fun part member =>
        le_trans (lower part member) (Nat.le_of_succ_le room)⟩
  | true =>
      cases form with
      | hasAttr subject path =>
          obtain ⟨rfl, rfl⟩ := List.cons.inj shape
          have inPath : Segment.height path ≤ bound := Segment.height_le lower
          exact Nat.max_le.2 ⟨low, by omega⟩
      | _ => cases test

/-! ## The bound -/

/-- The height that a tree can reach with so many levels. -/
def heightBound (levels : Nat) : Nat :=
  levels * (levels + 1) / 2

theorem heightBound_succ (levels : Nat) :
    heightBound (levels + 1) = heightBound levels + (levels + 1) := by
  unfold heightBound
  have step : (levels + 1) * (levels + 1 + 1) = levels * (levels + 1) + 2 * (levels + 1) := by ring
  omega

namespace Parser

variable {fallback : FallbackLevel} {limit levels : Nat} {power : Power} {left value : Expr}
  {source target : Stream}

/-- Whatever a start rule reads is one step higher than the expressions that it
reads. -/
theorem startRule_height {expr : ExprParser} {rule : StartRule}
    (nested : ∀ power source value target, expr power source = .ok value target →
      value.height ≤ bound)
    (start : Grammar.standardStart source.current.kind = some rule)
    (run : rule.parse expr source = .ok value target) : value.height ≤ bound + 1 := by
  have makes : ∀ power, Makes False (Expr.height · ≤ bound) (expr power) :=
    fun power source value target _ run => ⟨nested power source value target run, False.elim⟩
  have after : ∀ (value : Expr) (comments : List Comment), value.height ≤ bound →
      (value.addAfter comments).height ≤ bound := by
    intro value comments low
    rwa [Expr.height_addAfter]
  obtain ⟨started, -⟩ := startRule_makes makes after False.elim start run
  cases started with
  | fresh made =>
      obtain ⟨form, rfl, other, made⟩ := made
      have low := Form.height_le other made.parts
      rw [Expr.height_bare]
      omega
  | group good => omega
  | clause clause good goodSubject =>
      rw [Expr.height_addClause]
      omega

theorem joinRule_height {expr : ExprParser} {grammar : Grammar} {rule : JoinRule} {height : Nat}
    (nested : ∀ power source value target, expr power source = .ok value target →
      value.height ≤ bound)
    (joins : Grammar.standardJoin fallback source.current.kind = some (power, rule))
    (low : left.height ≤ height) (room : bound + 1 ≤ height)
    (run : rule.parse grammar expr left power source = .ok value target) :
    value.height ≤ height + 1 := by
  have makes : ∀ power, Makes False (Expr.height · ≤ bound) (expr power) :=
    fun power source value target _ run => ⟨nested power source value target run, False.elim⟩
  obtain ⟨⟨form, others, rfl, shape, made⟩, -⟩ := joinRule_makes makes False.elim joins run
  have lowForm := Form.height_join_le shape low made.parts room
  rw [Expr.height_bare]
  omega

/-- With `levels` levels an expression stays below the bound, and one that is
already as high as a new operand can be grows by one step for each level. -/
theorem expression_height (fallback : FallbackLevel) (limit levels : Nat) :
    (∀ power source value target,
      expression (.standard fallback) limit levels power source = .ok value target →
        value.height ≤ heightBound levels) ∧
    ∀ height power left source value target, left.height ≤ height →
      heightBound levels + 1 ≤ height →
      continuation (.standard fallback) limit levels power left source = .ok value target →
        value.height ≤ height + levels := by
  induction levels with
  | zero =>
      refine ⟨fun _ _ _ _ run => absurd run expression_zero_ok, ?_⟩
      intro height power left source value target low _ run
      rcases continuation_ok.1 run with ⟨-, rfl, -⟩ | ⟨_, _, _, _, _, _, _, ⟨⟩, _⟩
      exact low
  | succ levels ih =>
      obtain ⟨nested, goesOn⟩ := ih
      refine ⟨?_, ?_⟩
      · intro power source value target run
        obtain ⟨before, s₁, rule, first, s₂, after, s₃, -, start, parsed, -, continued⟩ :=
          expression_succ_ok.1 run
        have low := startRule_height nested start parsed
        have high := goesOn (heightBound levels + 1) _ _ _ _ _
          (by rwa [Expr.height_addAfter, Expr.height_addBefore]) (Nat.le_refl _) continued
        rw [heightBound_succ]
        omega
      · intro height power left source value target low room run
        rw [heightBound_succ] at room
        rcases continuation_ok.1 run with
          ⟨-, rfl, -⟩ |
          ⟨fewer, operatorPower, rule, node, s₁, after, s₂, same, joins, -, parsed, -, continued⟩
        · omega
        · obtain rfl : levels = fewer := Nat.succ.inj same
          have lowNode := joinRule_height nested joins low (by omega) parsed
          have high := goesOn (height + 1) _ _ _ _ _ (by rwa [Expr.height_addAfter]) (by omega)
            continued
          omega

end Parser

/-! ## Trees that reach the bound -/

namespace Tower

/-- Attribute tests on top of one another. -/
def tests : Nat → Expr → Expr
  | 0, subject => subject
  | count + 1, subject => tests count (.bare (.hasAttr subject [.name "a"]))

def testsText : Nat → String
  | 0 => ""
  | count + 1 => "?" ++ ("a" ++ testsText count)

def testsSigns : Nat → List Sign
  | 0 => []
  | count + 1 => [.mark .question, ⟨.identifier, "a"⟩] ++ testsSigns count

/-- The highest tree for one level more than the number: a set that holds the
highest tree for one level less, with as many tests on top as levels are left
then. -/
def tree : Nat → Expr
  | 0 => .bare (.name [.name "a"])
  | level + 1 =>
    tests (level + 1) (.bare (.attrs false [.assign [.name "a"] (tree level) []] []))

def text : Nat → String
  | 0 => "a"
  | level + 1 =>
    "\x7b" ++ ("a" ++ (" " ++ ("=" ++ (" " ++ (text level ++ ";"))))) ++ "\x7d" ++
      testsText (level + 1)

def signs : Nat → List Sign
  | 0 => [⟨.identifier, "a"⟩]
  | level + 1 =>
    .mark .curlyOpen :: (([⟨.identifier, "a"⟩] ++ .mark .assign :: (signs level ++ [.mark .semicolon])) ++
      [.mark .curlyClose]) ++ testsSigns (level + 1)

/-! ### Their height -/

theorem height_tests (count : Nat) {subject : Expr} (high : 1 ≤ subject.height) :
    (tests count subject).height = subject.height + count := by
  induction count generalizing subject with
  | zero => rfl
  | succ count ih =>
      have step : (Expr.bare (.hasAttr subject [.name "a"])).height = subject.height + 1 := by
        simp only [Expr.height_bare, Form.height, Segment.height]
        omega
      rw [tests, ih (by omega), step]
      omega

theorem height_tree (level : Nat) : (tree level).height = heightBound (level + 1) := by
  induction level with
  | zero => rfl
  | succ level ih =>
      have set : (Expr.bare (.attrs false [.assign [.name "a"] (tree level) []] [])).height =
          1 + heightBound (level + 1) := by
        simp [Form.height, Binding.height, Segment.height, ih]
      rw [tree, height_tests _ (by omega), set, heightBound_succ (level + 1)]
      omega

/-! ### Their tokens -/

theorem breaks_testsText (count : Nat) {rest : List Char} (breaks : Breaks rest) :
    Breaks ((testsText count).toList ++ rest) := by
  cases count with
  | zero => exact breaks
  | succ count => exact .of_head '?' (by simp [testsText]) rfl

theorem legible_testsText (count : Nat) : Legible Breaks (testsText count) (testsSigns count) := by
  induction count with
  | zero => exact Legible.empty.mono fun _ _ => trivial
  | succ count ih =>
      have name : Legible EndsWord "a" [⟨.identifier, "a"⟩] := .word rfl
      have named := name.append ih fun rest breaks => (breaks_testsText count breaks).endsWord
      exact (Legible.delimiter .question (by decide)).append named fun _ _ => trivial

theorem endsBlank_text (level : Nat) (rest : List Char) :
    EndsBlank ((text level).toList ++ rest) := by
  cases level with
  | zero => exact .of_head 'a' (by simp [text]) rfl
  | succ level => exact .of_head '\x7b' (by simp [text]) rfl

theorem legible_text (level : Nat) : Legible Breaks (text level) (signs level) := by
  induction level with
  | zero => exact (Legible.word rfl).mono fun _ breaks => breaks.endsWord
  | succ level ih =>
      have closed := ih.append (Legible.delimiter .semicolon (by decide))
        fun _ _ => .of_head ';' (by simp [Kind.spelling]) rfl
      have spaced := Legible.blank.append closed fun rest _ => by
        rw [String.toList_append, List.append_assoc]
        exact endsBlank_text level _
      have assigned := (Legible.operator .assign (by decide)).append spaced
        fun _ _ => by simp
      have apart := Legible.blank.append assigned fun _ _ =>
        .of_head '=' (by simp [Kind.spelling]) rfl
      have named := (Legible.word (rfl : isWord "a")).append apart
        fun _ _ => .of_head ' ' (by simp) rfl
      have braces := named.braces fun _ => trivial
      exact braces.append (legible_testsText (level + 1)) fun _ _ => trivial

/-! ### How they are read -/

open NixSyntax.Parser

variable {fallback : FallbackLevel} {limit : Nat}

/-- What stands behind a tower: nothing that it could go on with. -/
def Ends (kind : Kind) : Prop :=
  kind ∈ [Kind.semicolon, .endOfInput]

theorem Ends.not_mem {kind : Kind} (ends : Ends kind) : kind ∉ [Kind.dot, .colon, .atSign] := by
  have known : ∀ kind ∈ [Kind.semicolon, .endOfInput], kind ∉ [Kind.dot, .colon, .atSign] := by
    decide
  exact known kind ends

theorem Ends.stops {kind : Kind} (ends : Ends kind) :
    ¬ Power.base < (Grammar.standard fallback).power kind := by
  simp only [Ends, List.mem_cons, List.not_mem_nil, or_false] at ends
  rcases ends with rfl | rfl <;> exact not_lt_base _

theorem path_yields {expr : ExprParser} :
    Yields (· ≠ .dot) (attrPath expr) [⟨.identifier, "a"⟩] [.name "a"] := by
  have others : YieldsMany (· ≠ .dot) (dottedSegment expr) [] [] := .nil dottedSegment_stops
  exact attrPath_yields (segment_name (by decide) "a") others

theorem testsSigns_ne_dot (count : Nat) {kind : Kind} (ends : Ends kind) :
    Sign.leadKind (testsSigns count) kind ≠ .dot := by
  cases count with
  | zero =>
      rintro rfl
      exact ends.not_mem (by decide)
  | succ count => exact (by decide : Kind.question ≠ .dot)

theorem tests_yields (count : Nat) (left : Expr) :
    Yields Ends (continuation (.standard fallback) limit count .base left) (testsSigns count)
      (tests count left) := by
  induction count generalizing left with
  | zero => exact (continuation_stops left).mono fun _ ends => ends.stops
  | succ count ih =>
      have joins : (Grammar.standard fallback).join .question = some (.hasAttr, .hasAttr) := rfl
      exact continuation_joins joins (by decide) (hasAttr_yields path_yields) (ih _)
        fun _ ends => testsSigns_ne_dot count ends

theorem tree_yields (level : Nat) :
    Yields Ends (expression (.standard fallback) limit (level + 1) .base) (signs level)
      (tree level) := by
  induction level with
  | zero =>
      have named : Yields Ends (StartRule.name.parse (expression (.standard fallback) limit 0))
          (signs 0) (tree 0) := by
        refine name_path (path_yields.mono ?_) ?_
        · rintro kind ends rfl
          exact ends.not_mem (by decide)
        · intro kind ends member
          exact ends.not_mem (List.mem_cons_of_mem _ member)
      have stops : Yields Ends (continuation (.standard fallback) limit 0 .base (tree 0)) []
          (tree 0) := (continuation_stops _).mono fun _ ends => ends.stops
      exact expression_yields rfl named stops fun _ ends => ends
  | succ level ih =>
      have value := ih.known (List.mem_cons_self : Ends .semicolon)
      have assigned : Yields (fun _ => True) (assignment _ []) _ _ :=
        assignment_yields (path_yields.known (by decide : Kind.assign ≠ .dot)) value
      have entry : Yields (fun _ => True) (binding _ .curlyClose) _ _ :=
        binding_assigns assigned (fun _ => List.mem_cons_self) (by decide)
      have entries := YieldsMany.single entry (List.cons_ne_nil _ _) (binding_stops .curlyClose)
        fun _ _ => trivial
      have set : Yields (fun _ => True) (StartRule.braces.parse _) _ _ :=
        braces_attrs (attrs_yields false entries) fun _ _ _ => rfl
      exact expression_yields rfl set (tests_yields (level + 1) _) fun _ _ => trivial

end Tower

/-- A tree is at most as high as the triangular number of the limit of depth, and
a tree of exactly that height is read from some text. -/
theorem parseTokens_height :
    (∀ (options : Options) (tokens : List Token) (document : Document),
      parseTokens options tokens = .ok document →
        document.value.height ≤ options.maxDepth * (options.maxDepth + 1) / 2) ∧
    ∀ options : Options, 1 ≤ options.maxDepth → ∃ source document,
      parse options source = .ok document ∧
        document.value.height = options.maxDepth * (options.maxDepth + 1) / 2 := by
  refine ⟨?_, ?_⟩
  · intro options tokens document parsed
    obtain ⟨target, run⟩ := parseTokens_ok.1 parsed
    obtain ⟨before, s₁, value, s₂, after, -, read, -, -, rfl⟩ := Parser.document_ok.1 run
    exact (Parser.expression_height _ _ _).1 _ _ _ _ read
  · intro options some_level
    obtain ⟨level, depth⟩ : ∃ level, options.maxDepth = level + 1 :=
      ⟨options.maxDepth - 1, by omega⟩
    have yields : Parser.Yields Tower.Ends (Parser.expression (.standard options.fallback)
        options.maxDepth options.maxDepth .base) _ _ := depth ▸ Tower.tree_yields level
    have ends : Tower.Ends .endOfInput := by simp [Tower.Ends]
    refine ⟨_, _, parse_legible (Tower.legible_text level) nofun (yields.known ends), ?_⟩
    rw [depth]
    exact Tower.height_tree level

/-- With two levels a test can stand on a set that holds a name. -/
theorem parseTokens_height_two :
    ∃ tokens document, tokenize "a.nix" "\x7ba = a;\x7d?a" = .ok tokens ∧
      parseTokens { maxDepth := 2 } tokens = .ok document ∧
      document.value.height = 3 ∧ document.value.height ≤ 2 * (2 + 1) / 2 ∧
      (∃ source document, parse { maxDepth := 2 } source = .ok document ∧
        document.value.height = 2 * (2 + 1) / 2) := by
  have run : ∃ tokens, tokenize "a.nix" "\x7ba = a;\x7d?a" = .ok tokens ∧
      parseTokens { maxDepth := 2 } tokens = .ok
        { before := []
          value := .bare (.hasAttr
            (.bare (.attrs false [.assign [.name "a"] (.bare (.name [.name "a"])) []] []))
            [.name "a"])
          after := [] } := by
    refine ⟨_, by cbv, ?_⟩
    cbv
  obtain ⟨tokens, done, parsed⟩ := run
  exact ⟨tokens, _, done, parsed, rfl, parseTokens_height.1 { maxDepth := 2 } tokens _ parsed,
    parseTokens_height.2 { maxDepth := 2 } (by decide)⟩

end NixSyntax
