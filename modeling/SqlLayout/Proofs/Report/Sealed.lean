import SqlLayout.Proofs.Report.Flaw

/-!
Sealed comments.

A comment may quote what is left over of a text, or hold any signs that are written in it.
It is read as one comment for all that, and what stands behind it is read by itself.
-/

namespace SqlLayout

/-- Whether a text is one comment on one line, whatever stands behind it. -/
structure IsSealed (comment : Text) : Prop where
  /-- There is nothing but one comment in it. -/
  alone : scan comment = [⟨.comment, comment⟩]
  /-- It ends where it does, with anything behind it. -/
  front : ∀ behind, scan (comment ++ behind) = ⟨.comment, comment⟩ :: scan behind
  /-- It has no line breaks. -/
  oneLine : '\r' ∉ comment ∧ '\n' ∉ comment

/-- A comment that is read as one is sealed. -/
theorem Piece.Whole.isSealed {comment : Text} (whole : Piece.Whole ⟨.comment, comment⟩) :
    IsSealed comment := by
  obtain ⟨literal, oneLine⟩ := whole.literal_of_comment
  -- the span is closed by its own end, whatever stands behind it
  have front : ∀ behind, scan (comment ++ behind) = ⟨.comment, comment⟩ :: scan behind :=
    fun _ => scan_of_literal? (literal?_again literal (.inl rfl))
  refine ⟨?_, front, ?_, ?_⟩
  · have alone := front []
    rwa [List.append_nil, scan] at alone
  · intro member
    cases oneLine '\r' member
  · intro member
    cases oneLine '\n' member

/-- The comments of the tokens of a text are read as comments, whatever its markers are. -/
theorem BindSyntax.comments_whole (style : BindSyntax) (sql : Text) :
    ∀ token ∈ style.tokens sql, ∀ comment ∈ token.comments, Piece.Whole ⟨.comment, comment⟩ := by
  intro token member comment own
  obtain ⟨origin, among, rfl⟩ := List.mem_map.mp member
  -- Putting a marker back changes the text of a token, and not its comments.
  rw [comments_restore] at own
  exact ((tokenize_whole _).1 origin among).comments comment own

/-- The comments in the tree of a text are read as comments. -/
theorem BindSyntax.comments_parse (style : BindSyntax) (sql : Text) :
    ∀ token ∈ (style.parse sql).root :: (style.parse sql).root.descendants,
      ∀ comment ∈ token.comments, Piece.Whole ⟨.comment, comment⟩ := by
  have fits : (style.parse sql).root.FitsRoot := by
    rw [style.root_parse]
    exact parseTokens_fitsRoot (style.tokens_fit sql)
  obtain ⟨_, taken, left, split, _, _, _, leaves, _⟩ :=
    parseTokens_parts (style.tokens sql) (style.tokens_lexical sql)
  rw [← style.root_parse] at leaves
  refine List.forall_mem_cons.mpr ⟨?_, fun token met comment own => ?_⟩
  · rw [fits.own.2]
    exact nofun
  · -- A node with comments is a token that was read, maybe with a warning behind its comments.
    obtain ⟨dangling, leaf⟩ := fits.mem_statementLeaves met (List.ne_nil_of_mem own)
    obtain ⟨origin, among, comments, rfl, _, all⟩ :=
      exists_origin (extends_leaves leaves) (List.mem_map_of_mem leaf)
    refine (all comment own).elim (style.comments_whole sql origin ?_ comment) id
    rw [split]
    exact List.mem_append_left left among

/--
Every comment on a token of a text, or on a node of its tree, is sealed.

So nothing that a comment quotes can end it and be read as part of a statement.
-/
theorem comments_sealed (style : BindSyntax) (sql : Text) :
    (∀ token ∈ tokenize sql, ∀ comment ∈ token.comments, IsSealed comment) ∧
    ∀ token ∈ (style.parse sql).root :: (style.parse sql).root.descendants,
      ∀ comment ∈ token.comments, IsSealed comment := by
  -- A comment of the tree is one that a token had or one of the parser's own.
  constructor
  · intro token member comment own
    exact (((tokenize_whole sql).1 token member).comments comment own).isSealed
  · intro token met comment own
    exact (style.comments_parse sql token met comment own).isSealed

end SqlLayout
