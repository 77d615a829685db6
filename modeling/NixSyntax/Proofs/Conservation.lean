/-
Module: NixSyntax.Proofs.Conservation
Purpose: A parse loses no comment of its tokens and copies none.
Main exports: EndsOnce, multisetLedger, comments_conserved
-/
import Mathlib
import NixSyntax.Proofs.Ledger
import NixSyntax.Proofs.Lossless

namespace NixSyntax

/-!
The end of the input is read once, when the document is complete.  The tokens
of an end that is not the last token would never be read, and the comments
behind the end are taken by no rule, so neither may be there.
-/

/-- The end of the input is the last token, if it is there at all, and has no
comment behind it. -/
structure EndsOnce (tokens : List Token) : Prop where
  last : ∀ token ∈ tokens.dropLast, token.kind ≠ .endOfInput
  bare : ∀ token ∈ tokens, token.kind = .endOfInput → token.trailing = []

namespace EndsOnce

theorem tail {token : Token} {tokens : List Token} (ends : EndsOnce (token :: tokens)) :
    EndsOnce tokens := by
  refine ⟨?_, fun other member => ends.bare other (List.mem_cons_of_mem token member)⟩
  cases tokens with
  | nil => simp
  | cons next rest => exact fun other member => ends.last other (List.mem_cons_of_mem token member)

/-- Nothing stands behind the end of the input. -/
theorem nil_of_end {token : Token} {tokens : List Token} (ends : EndsOnce (token :: tokens))
    (atEnd : token.kind = .endOfInput) : tokens = [] := by
  cases tokens with
  | nil => rfl
  | cons next rest => exact absurd atEnd (ends.last token List.mem_cons_self)

/-- The first token may change in all but its kind, if the comments behind an
end stay away. -/
theorem replace_head {token other : Token} {tokens : List Token}
    (ends : EndsOnce (token :: tokens)) (kind : other.kind = token.kind)
    (bare : token.trailing = [] → other.trailing = []) : EndsOnce (other :: tokens) := by
  refine ⟨?_, ?_⟩
  · cases tokens with
    | nil => simp
    | cons next rest =>
        intro some member
        rcases List.mem_cons.1 member with rfl | later
        · rw [kind]
          exact ends.last token List.mem_cons_self
        · exact ends.last some (List.mem_cons_of_mem token later)
  · intro some member atEnd
    rcases List.mem_cons.1 member with rfl | later
    · exact bare (ends.bare token List.mem_cons_self (kind ▸ atEnd))
    · exact ends.bare some (List.mem_cons_of_mem token later) atEnd

theorem advance {stream : Stream} (ends : EndsOnce stream.tokens) :
    EndsOnce stream.advance.2.tokens := by
  rw [Stream.tokens_advance]
  split
  · next empty =>
      rw [Stream.tokens, empty] at ends
      rw [Stream.advance_fst]
      exact ends.replace_head rfl fun _ => rfl
  · exact ends.tail

/-- A new stream supplies an end that is missing. -/
theorem ofTokens {file : String} {tokens : List Token} (ends : EndsOnce tokens) :
    EndsOnce (Stream.ofTokens file tokens).tokens := by
  have mapped : EndsOnce (tokens.map (Token.inFile file)) := by
    refine ⟨?_, ?_⟩
    · rw [← List.map_dropLast]
      rintro _ member
      obtain ⟨token, inside, rfl⟩ := List.mem_map.1 member
      exact ends.last token inside
    · rintro _ member atEnd
      obtain ⟨token, inside, rfl⟩ := List.mem_map.1 member
      exact ends.bare token inside atEnd
  rcases Stream.tokens_ofTokens file tokens with ⟨same, -⟩ | ⟨position, longer, missing⟩
  · rw [same]
    exact mapped
  · rw [longer]
    refine ⟨?_, ?_⟩
    · rw [List.dropLast_concat]
      rintro _ member
      obtain ⟨token, inside, rfl⟩ := List.mem_map.1 member
      rcases List.eq_nil_or_concat tokens with rfl | ⟨front, last, rfl⟩
      · cases inside
      · rw [List.concat_eq_append] at inside
        rcases List.mem_append.1 inside with early | isLast
        · exact ends.last token (by simpa using early)
        · rw [List.mem_singleton.1 isLast]
          exact missing last (by simp)
    · rintro token member atEnd
      rcases List.mem_append.1 member with inside | last
      · exact mapped.bare token inside atEnd
      · rw [List.mem_singleton.1 last]
        rfl

end EndsOnce

/-- The tokens of a source text end once. -/
theorem tokenize_endsOnce {file source : String} {tokens : List Token}
    (done : tokenize file source = .ok tokens) : EndsOnce tokens := by
  obtain ⟨front, last, rfl, kind, -, trailing, -, others⟩ := tokenize_ends done
  refine ⟨?_, ?_⟩
  · rw [List.dropLast_concat]
    exact fun token member => (others token member).1
  · intro token member atEnd
    rcases List.mem_append.1 member with inside | isLast
    · exact absurd atEnd (others token inside).1
    · rw [List.mem_singleton.1 isLast]
      exact trailing

/-! ## Counting without order -/

/-- The ledger that counts how often each comment is there. -/
def multisetLedger : Ledger (Multiset Comment) where
  count comments := comments
  count_nil := rfl
  count_append front back := (Multiset.coe_add front back).symm
  Admits stream := EndsOnce stream.tokens
  admits_advance ends := ends.advance
  admits_trim _ _ ends := ends.replace_head rfl id
  commutes _ _ := add_comm

theorem held_ofTokens (file : String) (tokens : List Token) :
    (Stream.ofTokens file tokens).held = tokens.flatMap Token.comments := by
  have mapped : (tokens.map (Token.inFile file)).flatMap Token.comments =
      tokens.flatMap Token.comments :=
    List.flatMap_map ..
  rcases Stream.tokens_ofTokens file tokens with ⟨same, -⟩ | ⟨position, longer, -⟩
  · simp [Stream.held, same, mapped, Unclaimed.all]
  · simp [Stream.held, longer, mapped, Unclaimed.all, Token.comments, Token.endAt]

/-- Where a document ends, the stream holds nothing more. -/
theorem held_of_document {grammar : Grammar} {limit : Nat} {source target : Stream}
    {document : Document} (run : Parser.document grammar limit source = .ok document target)
    (ends : EndsOnce target.tokens) : target.held = [] := by
  obtain ⟨_, _, _, s₂, _, _, _, atEnd, taken, _⟩ := Parser.document_ok.1 run
  obtain ⟨-, rfl⟩ := Parser.takeBefore_ok.1 taken
  have none_behind : s₂.upcoming = [] := ends.nil_of_end atEnd
  have bare : s₂.current.trailing = [] :=
    ends.bare { s₂.current with leading := [] } List.mem_cons_self atEnd
  simp [Stream.held, Stream.tokens, Unclaimed.all, Token.comments, none_behind, bare]

/-- A document has every comment of its tokens, and each as often as they have
it. -/
theorem comments_conserved (options : Options) (tokens : List Token) (document : Document)
    (ends : EndsOnce tokens ∨ ∃ file source, tokenize file source = .ok tokens)
    (parsed : parseTokens options tokens = .ok document) :
    document.comments.Perm (tokens.flatMap Token.comments) := by
  have endsOnce : EndsOnce tokens := by
    rcases ends with once | ⟨file, source, done⟩
    · exact once
    · exact tokenize_endsOnce done
  obtain ⟨target, run⟩ := parseTokens_ok.1 parsed
  obtain ⟨targetEnds, paid⟩ : multisetLedger.Admits target ∧ _ :=
    Ledger.document_pays (Stream.unclaimed_ofTokens _ _) run endsOnce.ofTokens
  rw [held_ofTokens, held_of_document run targetEnds, multisetLedger.count_nil, add_zero] at paid
  exact Multiset.coe_eq_coe.1 paid.symm

/-- A comment that is read third comes first in the tree, because a clause goes
behind the comments of its body. -/
theorem comments_conserved_with_clause :
    ∃ tokens document, tokenize "a.nix" "with /*1*/ x; # 2\n/*3*/ y" = .ok tokens ∧
      parseTokens { maxDepth := 2 } tokens = .ok document ∧
      document.comments = [⟨.block, "3"⟩, ⟨.block, "1"⟩, ⟨.line, " 2"⟩] ∧
      document.comments.Perm (tokens.flatMap Token.comments) := by
  have run : ∃ tokens, tokenize "a.nix" "with /*1*/ x; # 2\n/*3*/ y" = .ok tokens ∧
      parseTokens { maxDepth := 2 } tokens = .ok
        { before := []
          value :=
            { clauses :=
                [{ kind := .scope
                   subject := ⟨[], .name [.name "x"], ⟨[⟨.block, "1"⟩], [⟨.line, " 2"⟩]⟩⟩ }]
              form := .name [.name "y"]
              margin := ⟨[⟨.block, "3"⟩], []⟩ }
          after := [] } := by
    refine ⟨_, by cbv, ?_⟩
    cbv
  obtain ⟨tokens, done, parsed⟩ := run
  have conserved := comments_conserved _ tokens _ (.inr ⟨_, _, done⟩) parsed
  exact ⟨tokens, _, done, parsed, rfl, conserved⟩

end NixSyntax
