import SqlLayout.Parse
import SqlLayout.Proofs.Layout.Lines
import SqlLayout.Proofs.Layout.Spelling

/-! Clean text: a formatted text has no empty line, no blanks at line ends, and lines at margins. -/

namespace SqlLayout

/-- A legible piece on one line is tidy. -/
theorem Piece.Legible.tidy {piece : Piece} (legible : piece.Legible) (line : '\n' ∉ piece.text) :
    piece.text.Tidy := by
  -- A word of any legible sort has no blanks at its ends.
  obtain ⟨filled, first, last⟩ := legible.edges
  obtain ⟨c, rest, split⟩ := List.exists_cons_of_ne_nil filled
  refine ⟨⟨c, ?_, first c ?_⟩, last, line⟩
  · rw [split]
    rfl
  · rw [split]
    rfl

/-- A whole piece is tidy. -/
theorem Piece.Whole.tidy {piece : Piece} (whole : piece.Whole) : piece.text.Tidy := by
  -- A whole piece is legible, and has no line breaks at all.
  refine Piece.Legible.tidy (.inl whole) fun member => ?_
  have line := whole.oneLine '\n' member
  cases line

/-- Tidy texts on one line, with a blank between them, are tidy together. -/
theorem Text.Tidy.intercalate {words : List Text} (tidy : ∀ word ∈ words, word.Tidy)
    (filled : words ≠ []) : Text.Tidy ([' '].intercalate words) := by
  induction words with
  | nil => exact absurd rfl filled
  | cons word words ih =>
    obtain ⟨first, rest⟩ := List.forall_mem_cons.mp tidy
    -- Between two words there is one blank, which stands at no end.
    cases words with
    | nil => simpa using first
    | cons next words =>
      rw [List.intercalate_cons_of_ne_nil (by simp)]
      exact first.append (ih rest (by simp)) 1

/-- The tokens of a text are tidy, if no marker in it has a line break. -/
theorem tokens_tidy {sql : Text}
    (unbroken : ∀ marker ∈ (BindSyntax.generic.cut sql).markers, '\n' ∉ marker) :
    ∀ token ∈ BindSyntax.generic.tokens sql, token.Tidy := by
  intro token member
  have legible := ((tokens_legible sql).1 token member).1
  obtain ⟨origin, among, rfl⟩ := List.mem_map.mp member
  have whole := (tokenize_whole _).1 origin among
  refine List.forall_mem_append.mpr ⟨fun comment own => (legible.comments comment own).tidy, ?_⟩
  refine List.forall_mem_singleton.mpr (Piece.Legible.tidy legible.text ?_)
  show '\n' ∉ ((BindSyntax.generic.cut sql).codec.restore origin).text
  -- Either the text is that of a piece, or else it is a marker.
  rcases Codec.restore_cases (BindSyntax.generic.cut sql).markers origin with
    ⟨same, _⟩ | ⟨_, marker, _, _, present, same⟩
  · rw [BindCut.codec, same]
    exact whole.text.tidy.unbroken
  · rw [BindCut.codec, same]
    exact unbroken marker (List.mem_of_getElem? present)

/-- Tidy tokens stay tidy with more comments. -/
theorem tidy_of_extends {tokens origins : List Token}
    (extend : List.Forall₂ Token.Extends tokens origins) (tidy : ∀ token ∈ origins, token.Tidy) :
    ∀ token ∈ tokens, token.Tidy := by
  intro token member
  -- The comments that a token was given are whole, and so they are tidy too.
  obtain ⟨origin, among, comments, rfl, _, all⟩ := exists_origin extend member
  obtain ⟨own, text⟩ := List.forall_mem_append.mp (tidy origin among)
  refine List.forall_mem_append.mpr ⟨fun comment here => ?_, text⟩
  exact (all comment here).elim (own comment) Piece.Whole.tidy

/--
A text whose markers have no line break comes to a statement and tidy tokens behind it.

The statement is sound, if it is not empty.
-/
theorem parse_tidy {sql : Text}
    (unbroken : ∀ marker ∈ (BindSyntax.generic.cut sql).markers, '\n' ∉ marker) :
    ∃ (root : Token) (left : List Token), parse sql = root.withResidue left ∧
      root.kind = .statement ∧ (root = .node .statement [] ∨ root.Sound) ∧
      ∀ token ∈ left, token.Legible ∧ token.Tidy := by
  -- What holds of the tokens holds of those taken and of those left.
  have tidy := tokens_tidy unbroken
  have legible := fun token member => ((tokens_legible sql).1 token member).1
  have fits := BindSyntax.generic.tokens_fit sql
  obtain ⟨root, taken, left, split, result, derived, same, leaves, _⟩ :=
    parseTokens_parts _ (BindSyntax.generic.tokens_lexical sql)
  have tips := tidy_of_extends (extends_leaves leaves)
  rw [same] at tips
  rw [split, List.forall_mem_append] at tidy legible fits
  refine ⟨root, left, ?_, ?_, ?_,
    fun token member => ⟨legible.2 token member, tidy.2 token member⟩⟩
  · rw [parse, BindSyntax.generic.root_parse, result]
  · rcases derived with derived | ⟨rfl, _⟩
    · exact List.mem_singleton.mp derived.kind_mem
    · rfl
  · -- A tree that was derived has the tokens taken as its leaves, up to warnings.
    rcases derived with derived | ⟨rfl, _⟩
    · refine .inr ⟨derived.fits fits.1, ?_⟩
      rw [← Token.map_leaves false, derived.leaves_one]
      exact tips tidy.1
    · exact .inl rfl

/-- Residue is put down on a line of its own, below the line that announces it. -/
theorem settles_residue {left : List Token} (tidy : ∀ token ∈ left, token.Legible ∧ token.Tidy)
    (some : left ≠ []) : Settles true false (residueOps left) := by
  have filled : left.flatMap Token.words ≠ [] := by
    obtain ⟨first, rest, rfl⟩ := List.exists_cons_of_ne_nil some
    simp [Token.words_ne_nil]
  have words : ∀ word ∈ left.flatMap Token.words, word.Tidy := by
    intro word member
    obtain ⟨token, among, own⟩ := List.mem_flatMap.mp member
    exact (tidy token among).2 word own
  -- The residue is one word as far as lines go, with blanks inside.
  have text : Text.Tidy ([' '].intercalate (left.map Token.display)) := by
    rw [intercalate_display fun token member => (tidy token member).1]
    exact .intercalate words filled
  have line : residueText? left = Option.some ([' '].intercalate (left.map Token.display)) := by
    simp [residueText?, some]
  rw [residueOps, line]
  exact fun _ => .startLine (.word whole_unparsedMarker.tidy (.newline (.word text (.done _))))

/-- What a text is laid out by ends with a word, if it is laid out by anything. -/
theorem settles_parse {sql : Text}
    (unbroken : ∀ marker ∈ (BindSyntax.generic.cut sql).markers, '\n' ∉ marker) :
    (parse sql).layout true = [] ∨ Settles true false ((parse sql).layout true) := by
  obtain ⟨root, left, result, kind, sound, tidy⟩ := parse_tidy unbroken
  rw [result, layout_withResidue kind]
  -- Tree and residue may be there or not, each without the other.
  rcases sound with rfl | sound
  · by_cases none : left = []
    · subst none
      exact .inl rfl
    · exact .inr (settles_residue tidy none)
  · have front := Token.settles_layout true root sound.fits sound.tidy
    by_cases none : left = []
    · subst none
      rw [show residueOps [] = [] from rfl, List.append_nil]
      exact .inr front
    · exact .inr ((front.relax true).append (settles_residue tidy none))

/--
The formatted text is clean.

No line is empty, none ends in a blank, and every line begins with blanks up to a multiple of the
width, the first one with none.
-/
theorem format_neat (sql : Text)
    (unbroken : ∀ marker ∈ (BindSyntax.generic.cut sql).markers, '\n' ∉ marker)
    (width : IndentWidth) (filled : format width (parse sql) ≠ []) :
    Neat width.columns ((format width (parse sql)).splitOn '\n') := by
  -- No instructions at all leave an empty text.
  rcases settles_parse unbroken with none | settles
  · refine absurd ?_ filled
    rw [format, none]
    rfl
  · have stands := (Writer.stands_start width.columns).runAll (settles 0)
    have neat := stands.neat
    rwa [Writer.width_runAll] at neat

/-- There is such a text, with a clause in a bracket, an operator that dangles and residue. -/
theorem format_neat_nested :
    let sql := "select a from (select :b from c) where d or ) e".toList
    let text := format .default (parse sql)
    text.splitOn '\n' = ["SELECT    A".toList, "FROM      (".toList,
      "                    SELECT    :b".toList, "                    FROM      C".toList,
      "          )".toList, "WHERE     D".toList, "          /*syntax warning*/ OR".toList,
      "/*XXX unparsed*/".toList, ") E".toList] ∧ Neat 10 (text.splitOn '\n') :=
  -- The lines are computed; that they are neat is the general law.
  ⟨by decide +kernel, format_neat _ (by decide +kernel) .default (by decide +kernel)⟩

end SqlLayout
