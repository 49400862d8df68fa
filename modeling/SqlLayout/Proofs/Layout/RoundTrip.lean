import SqlLayout.Parse
import SqlLayout.Proofs.Layout.Spelling

/-! The round trip: a formatted statement is read as the tokens it was made of. -/

namespace SqlLayout

/-- A spelling of whole pieces that do not join comes to these pieces. -/
theorem Spells.flaggedPieces {items : Spelling} {text : Text} (spells : Spells items text)
    (whole : ∀ item ∈ items, item.2.Whole)
    (apart : (items.map Prod.snd).IsChain fun piece next => joins piece.text next.text = false) :
    SqlLayout.flaggedPieces text = items.map Prod.snd := by
  -- Two words that are not set off may touch, and joining words have to be set off.
  have follows : items.IsChain MayFollow := by
    have off := spells.apart
    clear spells whole
    induction items with
    | nil => exact .nil
    | cons item items ih =>
      obtain ⟨next, others⟩ := List.isChain_cons.mp off
      rw [List.map_cons, List.isChain_cons, List.head?_map] at apart
      refine List.isChain_cons.mpr ⟨?_, ih apart.2 others⟩
      rintro ⟨set, piece⟩ front
      -- A word that is set off may still not be joined with the one before.
      cases set with
      | true => exact apart.1 piece (Option.mem_map_of_mem Prod.snd front)
      | false => exact (next _ front).resolve_left nofun
  exact spells.written.flaggedPieces whole follows

/-- A spelling of whole tokens that are apart is read as these tokens. -/
theorem Spells.tokenize {items : Spelling} {text : Text} {tokens : List Token}
    (spells : Spells items text) (pieces : items.map Prod.snd = tokens.flatMap Token.pieces)
    (whole : ∀ token ∈ tokens, token.Whole) (apart : tokens.IsChain Token.Apart) :
    SqlLayout.tokenize text = tokens := by
  -- Each piece is a comment of some token, or else its text.
  have inside : ∀ item ∈ items, item.2.Whole := by
    intro item member
    have among : item.2 ∈ tokens.flatMap Token.pieces := by
      rw [← pieces]
      exact List.mem_map_of_mem member
    obtain ⟨token, here, own⟩ := List.mem_flatMap.mp among
    rcases List.mem_append.mp own with comment | text
    · obtain ⟨word, own, same⟩ := List.mem_map.mp comment
      rw [← same]
      exact (whole token here).comments word own
    · rw [List.mem_singleton.mp text]
      exact (whole token here).text
  -- The pieces are read back one by one, and then every comment finds its token.
  have found := spells.flaggedPieces inside (pieces ▸ isChain_pieces whole apart)
  show attachComments (SqlLayout.flaggedPieces text) = tokens
  rw [found, pieces]
  exact attachComments_pieces fun token member => ⟨(whole token member).kind, (whole token member).leaf⟩

/-- Tokens with more comments stay apart. -/
theorem isChain_apart_of_extends {tokens origins : List Token}
    (extend : List.Forall₂ Token.Extends tokens origins) (apart : origins.IsChain Token.Apart) :
    tokens.IsChain Token.Apart := by
  -- By induction on the pairs, as being apart is about neighbours.
  induction extend with
  | nil => exact .nil
  | @cons token origin _ _ here rest ih =>
    obtain ⟨next, others⟩ := List.isChain_cons.mp apart
    refine List.isChain_cons.mpr ⟨?_, ih others⟩
    intro second front
    cases rest with
    | nil => cases front
    | @cons _ origin' _ _ there _ =>
      cases front
      obtain ⟨_, rfl, _⟩ := here
      obtain ⟨comments, rfl, within, _⟩ := there
      -- Where the second token has no comments, neither had the one it came from.
      intro bare
      cases bare
      exact next origin' rfl (List.subset_nil.mp within)

/-- Whole tokens stay whole with more comments. -/
theorem whole_of_extends {tokens origins : List Token}
    (extend : List.Forall₂ Token.Extends tokens origins) (whole : ∀ token ∈ origins, token.Whole) :
    ∀ token ∈ tokens, token.Whole := by
  intro token member
  -- A comment that was added is whole as those that were there.
  obtain ⟨origin, among, comments, rfl, _, all⟩ := exists_origin extend member
  have here := whole origin among
  exact ⟨here.kind, here.leaf, here.text,
    fun comment own => (all comment own).elim (here.comments comment) id⟩

/-- Without markers the tokens of a text are those that are lexed. -/
theorem tokens_of_unmarked {style : BindSyntax} {sql : Text} (unmarked : style.find sql = []) :
    style.tokens sql = tokenize sql := by
  -- Without ranges nothing is cut out, and nothing is put back.
  have cut : style.cut sql = ⟨[], sql⟩ := by
    rw [BindSyntax.cut, unmarked]
    rfl
  have restore : ∀ token : Token, (Codec.ofMarkers []).restore token = token := by
    intro token
    rw [Codec.restore]
    split
    · rfl
    · rfl
  simp only [BindSyntax.tokens, cut]
  show (tokenize sql).map (Codec.ofMarkers []).restore = tokenize sql
  rw [List.map_congr_left fun token _ => restore token, List.map_id']

/--
Formatting never changes the tokens of a statement without markers.

The formatted text is read as the leaves of the tree and, behind them, the tokens that were left.
The line that announces these is read as a comment on the first of them.
-/
theorem tokenize_format (style : BindSyntax) (sql : Text) (unmarked : style.find sql = [])
    (width : IndentWidth) :
    ∃ taken left, style.tokens sql = taken ++ left ∧
      List.Forall₂ Token.ReadAs (style.parse sql).root.statementLeaves taken ∧
      (style.parse sql).root.KeepsResidue left ∧
      tokenize (format width (style.parse sql).root) =
        (style.parse sql).root.statementLeaves.map Prod.fst ++ announced left := by
  -- The tokens as lexed are what is kept, so that they stand for the whole text.
  have result : (style.parse sql).root = (parseTokens (style.tokens sql)).root := by
    rw [BindSyntax.parse]
  obtain ⟨whole, apart⟩ := tokenize_whole sql
  rw [← tokens_of_unmarked unmarked] at whole apart
  rw [result]
  generalize style.tokens sql = tokens at whole apart
  obtain ⟨taken, left, split, leaves, keeps, items, pieces, spells⟩ :=
    format_spells (fun token member => (whole token member).legible) width
  -- What the layout adds are comments alone.
  have extend := List.rel_append (extends_leaves leaves) (extends_announced left)
  rw [split] at whole apart
  exact ⟨taken, left, split, leaves, keeps, spells.tokenize pieces (whole_of_extends extend whole)
    (isChain_apart_of_extends extend apart)⟩

/-- There is such a statement, with a comment, an operator that dangles and tokens that are left. -/
theorem tokenize_format_dangling :
    let sql := "SELECT a {why} or ) b".toList
    let root := (BindSyntax.generic.parse sql).root
    (tokenize sql).map Token.kind = [.partToken, .name, .orOp, .closeBracket, .name] ∧
    ∃ taken left, BindSyntax.generic.tokens sql = taken ++ left ∧
      List.Forall₂ Token.ReadAs root.statementLeaves taken ∧ root.KeepsResidue left ∧
      tokenize (format .default root) = root.statementLeaves.map Prod.fst ++ announced left :=
  -- The kinds are computed; what the layout reads as is the general law.
  ⟨by decide +kernel, tokenize_format .generic _ (by decide +kernel) .default⟩

end SqlLayout
