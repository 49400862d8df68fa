import SqlLayout.Proofs.Bind.Restore
import SqlLayout.Proofs.Layout.RoundTrip

/-! Tokens on one line: tokens that were lexed together are read from their line again. -/

namespace SqlLayout

/-- A line of words is the first of them, and each of the others behind a blank. -/
theorem intercalate_eq (word : Text) (words : List Text) :
    [' '].intercalate (word :: words) = word ++ words.flatMap (' ' :: ·) := by
  induction words generalizing word with
  | nil => simp
  | cons next words ih =>
    -- The line goes on behind one blank with the line of all other words.
    rw [List.intercalate_cons_cons, ih, List.flatMap_cons]
    simp

/-- Words that each stand behind a blank are set off. -/
theorem written_spaced (words : List Text) :
    Written (words.map (Prod.mk true)) (words.flatMap (' ' :: ·)) := by
  induction words with
  | nil => exact .done (List.forall_mem_nil _)
  | cons word words ih =>
    -- The blank is the gap in front of the word.
    have blank : Text.Blank [' '] := by simp [Text.Blank, isBlank]
    have set : true = true ↔ [' '] ≠ ([] : Text) := by simp
    exact .word blank set ih

/-- A line of words spells the pieces that the words are the texts of. -/
theorem spells_line (first : Piece) (others : List Piece) :
    Spells ((false, first) :: others.map (Prod.mk true))
      ([' '].intercalate ((first :: others).map Piece.text)) := by
  -- The words are written with a blank before each but the first, and a blank sets all words off.
  constructor
  · -- Nothing stands in front of the first word, and a blank in front of each of the others.
    have behind := written_spaced (others.map Piece.text)
    have written := @Written.word false first.text [] _ _ (List.forall_mem_nil _) (by simp) behind
    rw [List.map_cons, List.map_cons, intercalate_eq]
    simpa [Function.comp_def, Prod.map] using written
  · -- Every word but the first is set off, whatever the one before it.
    have off : ∀ item ∈ others.map (Prod.mk true), item.1 = true := by
      intro item member
      obtain ⟨piece, _, rfl⟩ := List.mem_map.mp member
      rfl
    generalize others.map (Prod.mk true) = items at off
    generalize (false, first) = item
    induction items generalizing item with
    | nil => exact .singleton _
    | cons next items ih =>
      obtain ⟨here, later⟩ := List.forall_mem_cons.mp off
      exact List.isChain_cons_cons.mpr ⟨.inl here, ih later next⟩

/-- Whole tokens that are apart are read from their line again. -/
theorem tokenize_line {tokens : List Token} (whole : ∀ token ∈ tokens, token.Whole)
    (apart : tokens.IsChain Token.Apart) :
    tokenize ([' '].intercalate (tokens.map Token.display)) = tokens := by
  rw [intercalate_display fun token member => (whole token member).legible, words_eq]
  rcases found : tokens.flatMap Token.pieces with _ | ⟨first, others⟩
  · -- A token has at least its own text, so that there are no tokens at all.
    have none : tokens = [] := by
      rcases tokens with _ | ⟨token, tokens⟩
      · rfl
      · simp [Token.pieces] at found
    subst none
    decide +kernel
  · refine (spells_line first others).tokenize ?_ whole apart
    rw [found]
    simp [Function.comp_def]

/-- The last child of a statement tells which tokens were left behind it. -/
theorem Token.KeepsResidue.unparsed?_eq {root : Token} {left : List Token}
    (keeps : root.KeepsResidue left) : root.unparsed? = residueText? left := by
  unfold Token.unparsed? residueText?
  rcases left with _ | ⟨first, others⟩
  · -- Without tokens that were left no child is a residue, and so the last one is none.
    have none : ¬∃ child ∈ root.children, child.kind = .unparsed := by
      simpa using keeps.present
    rcases last : root.children.getLast? with _ | child
    · rfl
    · have other : child.kind ≠ .unparsed :=
        fun same => none ⟨child, List.mem_of_getLast? last, same⟩
      simp [other]
  · rw [keeps.last (List.cons_ne_nil first others)]
    rfl

/-- Where a text has no markers, its tokens are those that are lexed in the encoded text. -/
theorem tokenize_encoded {style : BindSyntax} {sql : Text} (unmarked : style.find sql = []) :
    tokenize (style.cut sql).encoded = style.tokens sql := by
  -- Without markers there is nothing to encode, and nothing to put back.
  rw [tokens_of_unmarked unmarked, BindSyntax.cut, unmarked]
  rfl

/-- Tokens at the end of a text are read from their line again. -/
theorem tokenize_line_drop (sql : Text) (count : Nat) :
    tokenize ([' '].intercalate (((tokenize sql).drop count).map Token.display)) =
      (tokenize sql).drop count := by
  obtain ⟨whole, apart⟩ := tokenize_whole sql
  -- What holds of all tokens and of all neighbours holds of those behind a place.
  exact tokenize_line (fun token member => whole token (List.mem_of_mem_drop member))
    (apart.suffix (List.drop_suffix count _))

/--
A line of tokens is read as these tokens.

The tokens of any text are read from the line of their display forms again, with their kinds, texts
and comments.
So is the residue of a statement, if the text has no markers or none was put back into the tokens
that were left: it is read as exactly these tokens.
-/
theorem tokenize_display (style : BindSyntax) (sql : Text) :
    tokenize ([' '].intercalate ((tokenize sql).map Token.display)) = tokenize sql ∧
    ∃ taken left, style.tokens sql = taken ++ left ∧
      List.Forall₂ Token.ReadAs (style.parse sql).root.statementLeaves taken ∧
      (style.parse sql).root.KeepsResidue left ∧
      (style.find sql = [] ∨ left = (tokenize (style.cut sql).encoded).drop taken.length →
        ∀ residue, (style.parse sql).root.unparsed? = some residue → tokenize residue = left) := by
  -- The tokens are whole, so that the line of any of them spells their pieces.
  obtain ⟨_, taken, left, split, _, _, _, leaves, keeps⟩ :=
    parseTokens_parts (style.tokens sql) (style.tokens_lexical sql)
  have root : (style.parse sql).root = (parseTokens (style.tokens sql)).root := by
    rw [BindSyntax.parse]
  rw [← root] at leaves keeps
  obtain ⟨whole, apart⟩ := tokenize_whole sql
  refine ⟨tokenize_line whole apart, taken, left, split, leaves, keeps, ?_⟩
  intro plain residue kept
  -- Either way the tokens that were left are the last ones that were lexed.
  have last : left = (tokenize (style.cut sql).encoded).drop taken.length := by
    rcases plain with unmarked | last
    · rw [tokenize_encoded unmarked, split, List.drop_left]
    · exact last
  -- The residue is the line of these tokens.
  have line : residue = [' '].intercalate (left.map Token.display) := by
    rw [keeps.unparsed?_eq, residueText?] at kept
    split at kept
    · cases kept
    · exact (Option.some.inj kept).symm
  rw [line, last]
  exact tokenize_line_drop _ _

/-- A residue with comments, a fragment and the two words of a keyword that a comment divides. -/
theorem tokenize_display_residue :
    let sql := "SELECT a ) b; {why} not /*is*/ in".toList
    let residue := ") B /*XXX unexpected token: ;*/ {why} NOT /*is*/ IN".toList
    (BindSyntax.generic.parse sql).root.unparsed? = some residue ∧
    ∃ taken left, BindSyntax.generic.tokens sql = taken ++ left ∧
      (BindSyntax.generic.parse sql).root.KeepsResidue left ∧ tokenize residue = left := by
  -- The residue is computed; what it reads as is the general law.
  intro sql residue
  have kept : (BindSyntax.generic.parse sql).root.unparsed? = some residue := by decide +kernel
  obtain ⟨taken, left, split, _, keeps, read⟩ := (tokenize_display .generic sql).2
  exact ⟨kept, taken, left, split, keeps, read (.inl (by decide +kernel)) residue kept⟩

end SqlLayout
