import SqlLayout.Proofs.Lexing.Whole

/-! Attached comments: a list of tokens and the pieces it stands for determine each other. -/

namespace SqlLayout

/-- The pieces of a token: its comments and then its text. -/
def Token.pieces (token : Token) : List Piece :=
  token.comments.map (Piece.mk .comment) ++ [⟨token.kind, token.text⟩]

/-- What has to hold of a token for it to be read again from its pieces. -/
structure Token.Whole (token : Token) : Prop where
  /-- The token is no comment itself. -/
  kind : token.kind ≠ .comment
  /-- Nothing is below the token. -/
  leaf : token.children = []
  /-- The text of the token is read as what it is. -/
  text : Piece.Whole ⟨token.kind, token.text⟩
  /-- The comments are read as comments. -/
  comments : ∀ comment ∈ token.comments, Piece.Whole ⟨.comment, comment⟩

/-- Two tokens in a row that do not join, unless comments keep them apart. -/
def Token.Apart (token next : Token) : Prop :=
  next.comments = [] → joins token.text next.text = false

/-- Comments in front of other pieces wait for the next token. -/
theorem gather_comments (pending comments : List Text) (found : List Piece) :
    gather pending (comments.map (Piece.mk .comment) ++ found) =
      gather (pending ++ comments) found := by
  -- comments met before any token are held back, in their order
  induction comments generalizing pending with
  | nil => simp
  | cons comment comments ih =>
    rw [List.map_cons, List.cons_append, gather, if_pos rfl, ih, List.append_assoc]
    rfl

/-- The pieces of tokens are gathered to these tokens. -/
theorem gather_pieces {tokens : List Token}
    (plain : ∀ token ∈ tokens, token.kind ≠ .comment ∧ token.children = []) :
    gather [] (tokens.flatMap Token.pieces) = (tokens, []) := by
  induction tokens with
  | nil => rfl
  | cons token tokens ih =>
    -- a token's own comments are held back and handed to it, so the gathering reads it again
    obtain ⟨⟨known, leaf⟩, others⟩ := List.forall_mem_cons.mp plain
    rw [List.flatMap_cons, Token.pieces, List.append_assoc, gather_comments, List.nil_append,
      List.singleton_append, gather, if_neg known, ih others]
    cases token
    cases leaf
    rfl

/-- Without trailing comments tokens are left as they are. -/
theorem attachTrailing_nil (tokens : List Token) : attachTrailing [] tokens = tokens := by
  -- Only the last token would be given comments, and it is given none.
  induction tokens with
  | nil => rfl
  | cons first rest ih =>
    cases rest with
    | nil =>
      cases first
      simp [attachTrailing]
    | cons next rest => rw [attachTrailing, ih]

/-- The pieces of tokens are read as these tokens. -/
theorem attachComments_pieces {tokens : List Token}
    (plain : ∀ token ∈ tokens, token.kind ≠ .comment ∧ token.children = []) :
    attachComments (tokens.flatMap Token.pieces) = tokens := by
  -- Every comment stands in front of a token, so that none is left for the last one.
  rw [attachComments, gather_pieces plain]
  exact attachTrailing_nil tokens

/-- What is gathered from pieces stands for these pieces. -/
theorem pieces_gather (pending : List Text) (found : List Piece) :
    (gather pending found).1.flatMap Token.pieces ++
        (gather pending found).2.map (Piece.mk .comment) =
      pending.map (Piece.mk .comment) ++ found ∧
    ∀ token ∈ (gather pending found).1, token.kind ≠ .comment ∧ token.children = [] := by
  -- The pieces are gathered one by one, with the comments held back in front of them.
  induction found generalizing pending with
  | nil => exact ⟨by simp [gather], nofun⟩
  | cons piece found ih =>
    rw [gather]
    -- a comment joins those held back; any other piece takes them and becomes a token
    split
    · rename_i comment
      obtain ⟨kind, text⟩ := piece
      cases comment
      obtain ⟨same, plain⟩ := ih (pending ++ [text])
      exact ⟨by simp [same], plain⟩
    · rename_i known
      obtain ⟨same, plain⟩ := ih []
      refine ⟨?_, List.forall_mem_cons.mpr ⟨⟨known, rfl⟩, plain⟩⟩
      simp only [List.map_nil, List.nil_append] at same
      simp [Token.pieces, same]

/-- Tokens whose pieces do not join are apart. -/
theorem isChain_apart {tokens : List Token}
    (chain : (tokens.flatMap Token.pieces).IsChain
      fun piece next => joins piece.text next.text = false) : tokens.IsChain Token.Apart := by
  induction tokens with
  | nil => exact .nil
  | cons token tokens ih =>
    rw [List.flatMap_cons, List.isChain_append] at chain
    obtain ⟨_, others, between⟩ := chain
    -- a next token without comments begins with its text, right behind this token's last piece
    refine List.isChain_cons.mpr ⟨?_, ih others⟩
    intro next front bare
    obtain ⟨rest, rfl⟩ := List.head?_eq_some_iff.mp front
    exact between ⟨token.kind, token.text⟩ (by simp [Token.pieces]) ⟨next.kind, next.text⟩
      (by simp [Token.pieces, bare])

/-- A comment that is read as one is a literal span on one line. -/
theorem Piece.Whole.literal_of_comment {comment : Text} (whole : Piece.Whole ⟨.comment, comment⟩) :
    Piece.IsLiteral ⟨.comment, comment⟩ ∧ ∀ c ∈ comment, isLineBreak c = false := by
  cases whole with
  | literal literal oneLine => exact ⟨literal, oneLine⟩
  | lexeme lexeme _ =>
    -- no sweep makes a comment, so a comment is no lexeme
    have all : ∀ sweep ∈ sweeps, sweep.kind ≠ .comment := by decide
    obtain ⟨sweep, member, kind, _⟩ := lexeme.sweep
    exact absurd kind.symm (all sweep member)

/-- The first piece of a token is its first comment, or else its text. -/
theorem Token.head?_pieces {token : Token} {piece : Piece} (first : piece ∈ token.pieces.head?) :
    (∃ comment ∈ token.comments.head?, piece = ⟨.comment, comment⟩) ∨
      token.comments = [] ∧ piece = ⟨token.kind, token.text⟩ := by
  -- A token's pieces begin with its first comment, if it has one.
  obtain ⟨kind, text, children, comments⟩ := token
  cases comments with
  | nil =>
    cases first
    exact .inr ⟨rfl, rfl⟩
  | cons comment rest =>
    cases first
    exact .inl ⟨comment, rfl, rfl⟩

/-- Pieces of tokens make a chain if comments fit any piece, and texts the first one behind them. -/
theorem isChain_flatMap_pieces {fits : Piece → Piece → Prop} {tokens : List Token}
    (comments : ∀ token ∈ tokens, ∀ comment ∈ token.comments, ∀ next, fits ⟨.comment, comment⟩ next)
    (texts : tokens.IsChain fun token next =>
      ∀ piece ∈ next.pieces.head?, fits ⟨token.kind, token.text⟩ piece) :
    (tokens.flatMap Token.pieces).IsChain fits := by
  -- A token's pieces are its comments and then its text, and the next token's follow.
  induction tokens with
  | nil => exact .nil
  | cons token tokens ih =>
    obtain ⟨here, there⟩ := List.forall_mem_cons.mp comments
    obtain ⟨next, others⟩ := List.isChain_cons.mp texts
    rw [List.flatMap_cons, Token.pieces, List.append_assoc, List.singleton_append]
    -- The comments are passed one by one, up to the text behind them.
    generalize token.comments = waiting at here
    induction waiting with
    | nil =>
      refine List.isChain_cons.mpr ⟨?_, ih there others⟩
      intro piece front
      rcases tokens with _ | ⟨second, tokens⟩
      · cases front
      · refine next second rfl piece ?_
        rwa [List.flatMap_cons, List.head?_append_of_ne_nil _ (by simp [Token.pieces])] at front
    | cons comment waiting ih' =>
      obtain ⟨first, rest⟩ := List.forall_mem_cons.mp here
      exact List.isChain_cons.mpr ⟨fun piece _ => first piece, ih' rest⟩

/-- Tokens that are apart have pieces that do not join. -/
theorem isChain_pieces {tokens : List Token} (whole : ∀ token ∈ tokens, token.Whole)
    (apart : tokens.IsChain Token.Apart) :
    (tokens.flatMap Token.pieces).IsChain fun piece next => joins piece.text next.text = false := by
  refine isChain_flatMap_pieces ?_ ?_
  · -- a comment joins nothing, whichever side it stands on
    intro token member comment own next
    have literal := ((whole token member).comments comment own).literal_of_comment.1
    exact (not_joins_of_literal literal next.text).1
  · refine List.IsChain.imp_of_mem_imp ?_ apart
    intro token next _ member between piece first
    rcases Token.head?_pieces first with ⟨comment, own, rfl⟩ | ⟨bare, rfl⟩
    · have above := (whole next member).comments comment (List.mem_of_head? own)
      -- only a next token without comments begins with its own text
      exact (not_joins_of_literal above.literal_of_comment.1 token.text).2
    · exact between bare

/-- Trailing comments go to the last token, and change nothing else. -/
theorem attachTrailing_spec {trailing : List Text} {tokens : List Token} :
    (∀ token ∈ attachTrailing trailing tokens, ∃ other ∈ tokens, ∃ added, added ⊆ trailing ∧
      token = { other with comments := other.comments ++ added }) ∧
    (tokens.IsChain Token.Apart → (attachTrailing trailing tokens).IsChain Token.Apart) ∧
    ∀ token ∈ (attachTrailing trailing tokens).head?, ∃ other ∈ tokens.head?,
      token.text = other.text ∧ (token.comments = [] → other.comments = []) := by
  -- The tokens are passed one by one, up to the last.
  -- the trailing comments go to the last token alone, so every other one is as it was
  induction tokens with
  | nil => exact ⟨nofun, id, nofun⟩
  | cons first tokens ih =>
    cases tokens with
    | nil =>
      refine ⟨?_, fun _ => .singleton _, ?_⟩
      · intro token member
        exact ⟨first, .head [], trailing, fun _ => id, List.mem_singleton.mp member⟩
      · rintro token ⟨⟩
        exact ⟨first, rfl, rfl, fun bare => (List.append_eq_nil_iff.mp bare).1⟩
    | cons second tokens =>
      obtain ⟨members, chain, front⟩ := ih
      refine ⟨?_, ?_, ?_⟩
      · intro token member
        rcases List.mem_cons.mp member with rfl | member
        · exact ⟨token, .head _, [], nofun, by cases token; simp⟩
        · obtain ⟨other, among, same⟩ := members token member
          exact ⟨other, .tail first among, same⟩
      · -- the token behind may have gained comments, never another text
        intro apart
        obtain ⟨next, others⟩ := List.isChain_cons.mp apart
        refine List.isChain_cons.mpr ⟨?_, chain others⟩
        intro token head bare
        obtain ⟨other, among, text, fewer⟩ := front token head
        rw [text]
        exact next other among (fewer bare)
      · rintro token ⟨⟩
        exact ⟨first, rfl, rfl, id⟩

/-- Whole pieces that do not join are read as whole tokens that are apart. -/
theorem attachComments_whole {found : List Piece} (whole : ∀ piece ∈ found, piece.Whole)
    (apart : found.IsChain fun piece next => joins piece.text next.text = false) :
    (∀ token ∈ attachComments found, token.Whole) ∧ (attachComments found).IsChain Token.Apart := by
  -- the pieces gathered are the pieces there were, each of them whole
  obtain ⟨same, plain⟩ := pieces_gather [] found
  rw [attachComments]
  rcases cut : gather [] found with ⟨tokens, trailing⟩
  rw [cut] at same plain
  rw [List.map_nil, List.nil_append] at same
  rw [← same] at whole apart
  obtain ⟨members, chain, _⟩ := @attachTrailing_spec trailing tokens
  refine ⟨?_, chain (isChain_apart apart.left_of_append)⟩
  intro token member
  obtain ⟨other, among, added, within, rfl⟩ := members token member
  have inside : ∀ piece ∈ other.pieces, piece.Whole := fun piece here =>
    whole piece (List.mem_append_left _ (List.mem_flatMap.mpr ⟨other, among, here⟩))
  obtain ⟨known, leaf⟩ := plain other among
  refine ⟨known, leaf, inside _ (by simp [Token.pieces]), ?_⟩
  intro comment here
  -- its comments are those it was gathered with or those left over at the end
  rcases List.mem_append.mp here with own | late
  · exact inside _ (by simp [Token.pieces, own])
  · exact whole _ (List.mem_append_right _ (List.mem_map.mpr ⟨comment, within late, rfl⟩))

/-- The tokens of a text are whole and apart. -/
theorem tokenize_whole (sql : Text) :
    (∀ token ∈ tokenize sql, token.Whole) ∧ (tokenize sql).IsChain Token.Apart :=
  -- The flagged pieces are whole, and attaching their comments keeps them so.
  attachComments_whole (flaggedPieces_whole sql).1 (flaggedPieces_whole sql).2

/-- What a token says, without its comments. -/
def Token.piece (token : Token) : Piece :=
  ⟨token.kind, token.text⟩

/-- What the tokens of a text say. -/
def tokenPieces (text : Text) : List Piece :=
  (tokenize text).map Token.piece

/-- Gathering comments leaves the other pieces. -/
theorem map_piece_gather (pending : List Text) (found : List Piece) :
    (gather pending found).1.map Token.piece = found.filter fun piece => piece.kind ≠ .comment := by
  -- A comment is set aside for the next token, and every other piece becomes a token.
  induction found generalizing pending with
  | nil => rfl
  | cons piece found ih =>
    rw [gather]
    split
    · rename_i comment
      rw [ih, List.filter_cons_of_neg (by simpa using comment)]
    · rename_i other
      rw [List.filter_cons_of_pos (by simpa using other), ← ih []]
      rfl

/-- Trailing comments leave what tokens say. -/
theorem map_piece_attachTrailing (trailing : List Text) (tokens : List Token) :
    (attachTrailing trailing tokens).map Token.piece = tokens.map Token.piece := by
  -- Only the comments of the last token change.
  fun_induction attachTrailing trailing tokens with
  | case1 => rfl
  | case2 last => rfl
  | case3 first next rest ih => exact congrArg (first.piece :: ·) ih

/-- Tokens say what the pieces of a text are, but for the comments. -/
theorem tokenPieces_eq (text : Text) :
    tokenPieces text = (flaggedPieces text).filter fun piece => piece.kind ≠ .comment := by
  -- Attaching comments to tokens leaves the tokens' own kinds and texts in their order.
  rw [tokenPieces, tokenize, attachComments, map_piece_attachTrailing, map_piece_gather]
  rfl

end SqlLayout
