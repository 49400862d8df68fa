import SqlLayout.Proofs.Layout.Skeleton

/-! Spelling: a formatted statement is a text of the words of its leaves and of its residue. -/

namespace SqlLayout

/-- Words put on one line, with a blank between them. -/
theorem runAll_verbatim (writer : Writer) (token : Token) :
    writer.runAll token.verbatim = writer.write ([' '].intercalate token.words) := by
  -- Written piece by piece, the words come to the same as all at once.
  have write_write : ∀ (writer : Writer) (front back : Text),
      (writer.write front).write back = writer.write (front ++ back) := by
    simp [Writer.write, Nat.add_assoc]
  unfold Token.verbatim Token.words
  induction token.comments generalizing writer with
  | nil => simp [Writer.runAll, Writer.run]
  | cons comment comments ih =>
    -- The first comment and the blank behind it are written before the rest.
    have next := ih ((writer.write comment).write [' '])
    rw [List.cons_append, List.intercalate_cons_of_ne_nil (by simp), ← write_write, ← write_write,
      ← next]
    rfl

/-- Lines of words put on one line make one line of all words. -/
theorem intercalate_append {front back : List Text} (solid : front ≠ []) (solid' : back ≠ []) :
    [' '].intercalate (front ++ back) =
      [' '].intercalate front ++ [' '] ++ [' '].intercalate back := by
  induction front with
  | nil => exact absurd rfl solid
  | cons word front ih =>
    -- Only with a word on both sides is there a blank where the two meet.
    cases front with
    | nil =>
      rw [List.singleton_append, List.intercalate_cons_of_ne_nil solid', List.intercalate_singleton]
    | cons next front =>
      rw [List.cons_append, List.cons_append, List.intercalate_cons_cons, ← List.cons_append,
        ih (by simp), List.intercalate_cons_cons]
      simp

/-- A token has words. -/
theorem Token.words_ne_nil (token : Token) : token.words ≠ [] := by
  simp [Token.words]

/-- A legible token is shown by its words. -/
theorem Token.Legible.display {token : Token} (legible : token.Legible) :
    token.display = [' '].intercalate token.words := by
  -- A legible token has text, and nothing below it.
  have solid := legible.text.edges.1
  obtain ⟨kind, text, children, comments⟩ := token
  cases legible.leaf
  have filled : text.isEmpty = false := by simpa using solid
  simp [Token.display, Token.displayAll, Token.words, filled]

/-- Legible tokens are shown on one line by all their words. -/
theorem intercalate_display {tokens : List Token} (legible : ∀ token ∈ tokens, token.Legible) :
    [' '].intercalate (tokens.map Token.display) =
      [' '].intercalate (tokens.flatMap Token.words) := by
  induction tokens with
  | nil => rfl
  | cons token tokens ih =>
    obtain ⟨here, others⟩ := List.forall_mem_cons.mp legible
    rw [List.map_cons, List.flatMap_cons, here.display]
    -- Behind the last token there is no blank.
    cases tokens with
    | nil => simp
    | cons next tokens =>
      have more : (next :: tokens).flatMap Token.words ≠ [] := by
        simp [Token.words_ne_nil]
      rw [List.intercalate_cons_of_ne_nil (by simp), ih others,
        intercalate_append token.words_ne_nil more]

/-- The instructions that lay out the tokens left behind a statement. -/
def residueOps (left : List Token) : List LayoutOp :=
  match residueText? left with
  | some text => [.startLine, .write unparsedMarker, .newline, .write text]
  | none => []

/-- A statement is laid out in front of its residue. -/
theorem layout_withResidue {root : Token} (kind : root.kind = .statement) (left : List Token)
    (multiline : Bool) :
    (root.withResidue left).layout multiline = root.layout multiline ++ residueOps left := by
  obtain ⟨_, text, children, comments⟩ := root
  cases kind
  unfold Token.withResidue residueOps
  -- The residue is the last child, and laid out as such.
  rcases residueText? left with _ | residue
  · exact (List.append_nil _).symm
  · show statementOps (layoutAll true (children ++ [.residue residue])) =
      statementOps (layoutAll true children) ++ _
    rw [layoutAll_append, statementOps_append]
    rfl

/-- The tokens left behind a statement, with the marker line among the comments of the first. -/
def announced : List Token → List Token
  | [] => []
  | first :: rest => { first with comments := unparsedMarker :: first.comments } :: rest

/-- The words of the tokens left behind a statement come behind the marker line. -/
theorem words_announced {left : List Token} (some : left ≠ []) :
    (announced left).flatMap Token.words = unparsedMarker :: left.flatMap Token.words := by
  -- The announcement is put in front of the first token that is left.
  obtain ⟨first, rest, rfl⟩ := List.exists_cons_of_ne_nil some
  rfl

/-- The tokens left behind a statement are written word by word, in lines of their own. -/
theorem exists_residueOps {left : List Token} (legible : ∀ token ∈ left, token.Legible) :
    ∃ ops, (∀ writer : Writer, writer.runAll (residueOps left) = writer.runAll ops) ∧
      Lays ops ((announced left).flatMap Token.words) ∧ SetsOff ops := by
  -- The residue is written at once, but with a blank between any two of its words.
  cases left with
  | nil => exact ⟨[], fun _ => rfl, lays_nil, setsOff_nil⟩
  | cons first rest =>
    have solid : ∀ word ∈ (first :: rest).flatMap Token.words, word ≠ [' '] := by
      intro word member
      obtain ⟨token, among, here⟩ := List.mem_flatMap.mp member
      exact (legible token among).words_solid word here
    have shown := intercalate_display legible
    have filled : (first :: rest).flatMap Token.words ≠ [] := by simp [Token.words_ne_nil]
    rw [words_announced (List.cons_ne_nil first rest)]
    -- All words but the last are put down as the comments of a token are.
    obtain ⟨front, last, split⟩ := (List.eq_nil_or_concat _).resolve_left filled
    rw [List.concat_eq_append] at split
    let line : Token := { kind := .unparsed, text := last, comments := front }
    have words : (first :: rest).flatMap Token.words = line.words := split
    rw [words] at solid shown ⊢
    refine ⟨[.startLine, .write unparsedMarker] ++ ([.newline] ++ line.verbatim), ?_, ?_, ?_⟩
    · intro writer
      have text : residueText? (first :: rest) = some ([' '].intercalate line.words) :=
        congrArg some shown
      unfold residueOps
      rw [text]
      show (writer.startLine.write unparsedMarker).newline.write _ =
        (writer.startLine.write unparsedMarker).newline.runAll line.verbatim
      rw [runAll_verbatim]
    · have marker : Lays [.write unparsedMarker] [unparsedMarker] := lays_word (by decide +kernel)
      exact (marker.gaps isGap_lines.1).spaced isGap_lines.2.2.1 nofun (lays_verbatim solid)
    · exact setsOff_append isGap_lines.1 nofun _

/-- What a text of words comes from: pieces, each set off or allowed to touch the one before. -/
structure Spells (items : Spelling) (text : Text) : Prop where
  /-- The text is made of the words of the pieces. -/
  written : Written (items.map (Prod.map id Piece.text)) text
  /-- Every word is set off or may touch the one before. -/
  apart : items.IsChain fun item next =>
    StandsOff (Prod.map id Piece.text item) (Prod.map id Piece.text next)

/-- Words with the texts of pieces are those of a spelling of the pieces. -/
theorem exists_spelling {words : List (Bool × Text)} {found : List Piece}
    (same : words.map Prod.snd = found.map Piece.text) :
    ∃ items : Spelling, items.map (Prod.map id Piece.text) = words ∧ items.map Prod.snd = found := by
  -- Each word is written as the piece in its place.
  induction words generalizing found with
  | nil => exact ⟨[], rfl, (List.map_eq_nil_iff.mp same.symm).symm⟩
  | cons word words ih =>
    obtain ⟨piece, others, rfl, here, rest⟩ := List.map_eq_cons_iff.mp same.symm
    obtain ⟨items, written, pieces⟩ := ih rest.symm
    refine ⟨(word.1, piece) :: items, ?_, ?_⟩
    · rw [List.map_cons, written, Prod.map, here]
      rfl
    · rw [List.map_cons, pieces]

/-- The words of tokens are the texts of their pieces. -/
theorem words_eq (tokens : List Token) :
    tokens.flatMap Token.words = (tokens.flatMap Token.pieces).map Piece.text := by
  -- A word is what a piece says, its kind left out.
  rw [List.map_flatMap]
  congr 1
  funext token
  simp [Token.words, Token.pieces, Function.comp_def]

/-- A word that is put down is among the words of the script. -/
theorem mem_script {word : Text} {ops : List LayoutOp} (member : .write word ∈ ops)
    (solid : word ≠ [' ']) (set : Bool) : word ∈ (script set ops).map Prod.snd := by
  -- The script goes on over the instructions in front of it.
  obtain ⟨front, back, rfl⟩ := List.append_of_mem member
  rw [script_append, List.map_append, script, if_neg solid]
  simp

/-- The pieces of legible tokens are legible. -/
theorem legible_pieces {tokens : List Token} (legible : ∀ token ∈ tokens, token.Legible) :
    ∀ piece ∈ tokens.flatMap Token.pieces, piece.Legible := by
  intro piece member
  obtain ⟨token, among, here⟩ := List.mem_flatMap.mp member
  -- A piece is a comment of a token, or else its text.
  rcases List.mem_append.mp here with comment | text
  · obtain ⟨word, own, rfl⟩ := List.mem_map.mp comment
    exact .inl ((legible token among).comments word own)
  · rw [List.mem_singleton.mp text]
    exact (legible token among).text

/-- Instructions that lay out legible tokens write a spelling of their pieces. -/
theorem Lays.spells {ops : List LayoutOp} {tokens : List Token}
    (lays : Lays ops (tokens.flatMap Token.words)) (legible : ∀ token ∈ tokens, token.Legible)
    (width : IndentWidth) :
    ∃ items : Spelling, items.map Prod.snd = tokens.flatMap Token.pieces ∧
      Spells items (({ width := width.columns } : Writer).runAll ops).finish := by
  -- The script has the words of the tokens, and a word of a token is its piece's text.
  have fit := legible_pieces legible
  have edges : ∀ word ∈ tokens.flatMap Token.words, word ≠ [] ∧
      (∀ c ∈ word.head?, isBlank c = false) ∧ ∃ c ∈ word.getLast?, isBlank c = false := by
    intro word member
    rw [words_eq] at member
    obtain ⟨piece, among, rfl⟩ := List.mem_map.mp member
    exact (fit piece among).edges
  have spoken : ∀ word ∈ (script false ops).map Prod.snd, word ∈ tokens.flatMap Token.words := by
    rw [lays.spoken]
    exact fun _ => id
  have solid : ∀ op ∈ ops, op.Solid := by
    intro op member
    cases op with
    | write word =>
      by_cases blank : word = [' ']
      · exact .inl blank
      · exact .inr (edges word (spoken word (mem_script member blank false))).2.2
    | _ => trivial
  have begins : ∀ item ∈ script false ops, item.2 ≠ [] ∧ ∀ c ∈ item.2.head?, isBlank c = false := by
    intro item member
    have edge := edges item.2 (spoken item.2 (List.mem_map_of_mem member))
    exact ⟨edge.1, edge.2.1⟩
  have written := Writer.written_finish width.positive solid begins
  have apart := lays.apart false
  obtain ⟨items, words, pieces⟩ := exists_spelling ((lays.spoken false).trans (words_eq tokens))
  rw [← words] at written apart
  rw [List.isChain_map] at apart
  -- The first word is set off from nothing.
  cases items with
  | nil => exact ⟨[], pieces, written, .nil⟩
  | cons item items =>
    obtain ⟨next, others⟩ := List.isChain_cons.mp apart
    exact ⟨(false, item.2) :: items, pieces, written, List.isChain_cons.mpr ⟨next, others⟩⟩

/-- The marker line is a comment. -/
theorem whole_unparsedMarker : Piece.Whole ⟨.comment, unparsedMarker⟩ :=
  -- It is a comment between its marks, on one line.
  .literal (by decide +kernel) (by decide +kernel)

/-- Whether a token is another one, maybe with more comments. -/
def Token.Extends (token origin : Token) : Prop :=
  ∃ comments, token = { origin with comments } ∧ origin.comments ⊆ comments ∧
    ∀ comment ∈ comments, comment ∈ origin.comments ∨ Piece.Whole ⟨.comment, comment⟩

/-- A token is itself. -/
theorem Token.Extends.refl (token : Token) : token.Extends token :=
  -- It has its own comments and none besides.
  ⟨token.comments, by cases token; rfl, fun _ => id, fun _ => .inl⟩

/-- The leaves of a statement are the tokens that were read, maybe with a warning. -/
theorem extends_leaves {leaves : List (Token × Bool)} {taken : List Token}
    (read : List.Forall₂ Token.ReadAs leaves taken) :
    List.Forall₂ Token.Extends (leaves.map Prod.fst) taken := by
  rw [List.forall₂_map_left_iff]
  refine read.imp ?_
  rintro ⟨leaf, dangles⟩ token here
  -- A leaf that dangles has a warning behind its comments, and any other is its token.
  cases dangles with
  | true =>
    cases here
    refine ⟨token.comments ++ [syntaxWarning], rfl, List.subset_append_left _ _, ?_⟩
    intro comment member
    refine (List.mem_append.mp member).imp_right fun added => ?_
    rw [List.mem_singleton.mp added]
    exact whole_syntaxWarning
  | false =>
    cases here
    exact .refl _

/-- The tokens left behind a statement are themselves, but for the marker line. -/
theorem extends_announced (left : List Token) :
    List.Forall₂ Token.Extends (announced left) left := by
  cases left with
  | nil => exact .nil
  | cons first rest =>
    -- The first token has the announcement in front of its own comments.
    refine .cons ⟨_, rfl, List.subset_cons_self _ _, ?_⟩
      (List.forall₂_same.mpr fun token _ => .refl token)
    intro comment member
    refine (List.mem_cons.mp member).symm.imp_right fun added => ?_
    rw [added]
    exact whole_unparsedMarker

/-- A token with more comments has a token that it comes from. -/
theorem exists_origin {tokens origins : List Token}
    (extend : List.Forall₂ Token.Extends tokens origins) {token : Token} (member : token ∈ tokens) :
    ∃ origin ∈ origins, token.Extends origin := by
  -- The two lists go in step, so that the token has a partner.
  induction extend with
  | nil => cases member
  | @cons first origin _ others here _ ih =>
    rcases List.mem_cons.mp member with rfl | later
    · exact ⟨origin, .head others, here⟩
    · obtain ⟨found, among, same⟩ := ih later
      exact ⟨found, .tail origin among, same⟩

/-- Legible tokens stay legible with more comments. -/
theorem legible_of_extends {tokens origins : List Token}
    (extend : List.Forall₂ Token.Extends tokens origins)
    (legible : ∀ token ∈ origins, token.Legible) : ∀ token ∈ tokens, token.Legible := by
  intro token member
  -- A comment is one that its origin has, or one that was added.
  obtain ⟨origin, among, comments, rfl, _, all⟩ := exists_origin extend member
  have here := legible origin among
  exact ⟨here.leaf, here.text, fun comment own => (all comment own).elim (here.comments comment) id⟩

/-- A statement is laid out by the words of its leaves. -/
theorem lays_statement {root : Token} {taken : List Token}
    (derived : Derives (.one .statement) [root] taken ∨ root = .node .statement [] ∧ taken = [])
    (legible : ∀ token ∈ taken, token.Legible) :
    Lays (root.layout true)
      (((Token.leavesAll root.kind root.children).map Prod.fst).flatMap Token.words) := by
  -- An empty statement puts down nothing.
  rcases derived with derived | ⟨rfl, rfl⟩
  · have laid := derived.laysOut legible root (.head []) true
    rwa [Token.skeleton, Token.tipsAll, Token.tipsAll, List.append_nil, ← Token.map_leaves false,
      derived.leaves_one] at laid
  · exact lays_nil

/-- A formatted statement spells its leaves, and behind them the tokens that were left. -/
theorem format_spells {tokens : List Token} (legible : ∀ token ∈ tokens, token.Legible)
    (width : IndentWidth) :
    ∃ taken left, tokens = taken ++ left ∧
      List.Forall₂ Token.ReadAs (parseTokens tokens).root.statementLeaves taken ∧
      (parseTokens tokens).root.KeepsResidue left ∧
      ∃ items : Spelling,
        items.map Prod.snd = ((parseTokens tokens).root.statementLeaves.map Prod.fst ++
          announced left).flatMap Token.pieces ∧
        Spells items (format width (parseTokens tokens).root) := by
  -- A tree is derived from the tokens read, and its skeleton is laid out.
  have lexical : ∀ token ∈ tokens, token.kind.isLexical = true ∧ token.children = [] :=
    fun token member => ⟨(legible token member).text.lexical, (legible token member).leaf⟩
  obtain ⟨root, taken, left, split, result, derived, same, leaves, keeps⟩ :=
    parseTokens_parts tokens lexical
  refine ⟨taken, left, split, leaves, keeps, ?_⟩
  rw [split, List.forall_mem_append] at legible
  -- Either way the root is a statement.
  have kind : root.kind = .statement := by
    rcases derived with derived | ⟨rfl, _⟩
    · exact List.mem_singleton.mp derived.kind_mem
    · rfl
  have front := lays_statement derived legible.1
  rw [← same] at front
  obtain ⟨ops, runs, back, off⟩ := exists_residueOps legible.2
  have laid := front.append back (.inl off)
  rw [← List.flatMap_append] at laid
  -- Warnings and the announcement are comments, so that all tokens stay legible.
  have fit : ∀ token ∈ (parseTokens tokens).root.statementLeaves.map Prod.fst ++ announced left,
      token.Legible :=
    List.forall_mem_append.mpr ⟨legible_of_extends (extends_leaves leaves) legible.1,
      legible_of_extends (extends_announced left) legible.2⟩
  obtain ⟨items, pieces, spells⟩ := laid.spells fit width
  refine ⟨items, pieces, ?_⟩
  -- The residue is put down by the writer that has laid out the tree.
  have text : format width (parseTokens tokens).root =
      (({ width := width.columns } : Writer).runAll (root.layout true ++ ops)).finish := by
    rw [format, result, layout_withResidue kind, Writer.runAll, List.foldl_append]
    have run := runs (({ width := width.columns } : Writer).runAll (root.layout true))
    simp only [Writer.runAll] at run ⊢
    rw [run, List.foldl_append]
  rwa [text]

end SqlLayout
