import SqlLayout.Proofs.Lexing.Respell
import SqlLayout.Proofs.Lexing.Runs

/-!
Comments.

Lexing makes a comment of every leftover, and gives each comment to the token behind it.
So the comments of a text that has a token are all in its tokens, in the order of the text.
-/

namespace SqlLayout

/-- The comments among pieces, in their order. -/
def commentsOf (found : List Piece) : List Text :=
  (found.filter fun piece => piece.kind == .comment).map Piece.text

/-- The pieces that are no comments, in their order. -/
def withoutComments (found : List Piece) : List Piece :=
  found.filter fun piece => piece.kind ≠ .comment

/-- The comments that a piece of a scanned text comes to: itself, or one for each leftover in it. -/
def commentsFrom (span : Piece) : List Text :=
  if span.kind = .comment then [span.text]
  else (leftovers (swept [span])).map unexpectedComment

/--
The piece that a comment belongs to, with the pieces in front of it that are no comments either.

The comment stands between two lists of pieces.
-/
inductive BelongsTo (front back : List Piece) : (earlier : List Piece) → (owner : Piece) → Prop where
  /-- It is the first piece behind the comment that is no comment. -/
  | next {comments rest : List Piece} {owner : Piece} : (∀ piece ∈ comments, piece.kind = .comment) →
    owner.kind ≠ .comment → back = comments ++ owner :: rest →
    BelongsTo front back (withoutComments front) owner
  /-- Where there is none behind the comment, it is the last one in front of it. -/
  | last {earlier comments : List Piece} {owner : Piece} : (∀ piece ∈ back, piece.kind = .comment) →
    (∀ piece ∈ comments, piece.kind = .comment) → owner.kind ≠ .comment →
    front = earlier ++ owner :: comments → BelongsTo front back (withoutComments earlier) owner

/-- What has to hold of tokens that stand for pieces, for no comment to be lost or moved. -/
structure Attached (found : List Piece) (tokens : List Token) : Prop where
  /-- The tokens say what the pieces other than comments are. -/
  pieces : tokens.map Token.piece = withoutComments found
  /-- All comments are kept, in their order. -/
  comments : tokens.flatMap Token.comments = commentsOf found
  /-- Every comment is with the token that it belongs to, behind the comments in front of it. -/
  owners : ∀ front comment back, found = front ++ ⟨.comment, comment⟩ :: back →
    ∃ before token after own later, tokens = before ++ token :: after ∧
      BelongsTo front back (before.map Token.piece) token.piece ∧
      token.comments = own ++ comment :: later ∧
      before.flatMap Token.comments ++ own = commentsOf front

section Pieces

/-- The comments of pieces are those of the first ones and then those of the others. -/
theorem commentsOf_append (front back : List Piece) :
    commentsOf (front ++ back) = commentsOf front ++ commentsOf back := by
  simp [commentsOf]

/-- A comment in front of pieces is the first of their comments, and no other piece is one. -/
theorem commentsOf_cons (piece : Piece) (found : List Piece) :
    commentsOf (piece :: found) =
      (if piece.kind = .comment then [piece.text] else []) ++ commentsOf found := by
  -- The piece is kept or left out by its kind.
  unfold commentsOf
  rw [List.filter_cons]
  by_cases comment : piece.kind = .comment
  · simp [comment]
  · simp [comment]

/-- The comments of comments are these comments. -/
theorem commentsOf_map (comments : List Text) :
    commentsOf (comments.map (Piece.mk .comment)) = comments := by
  -- All of the pieces are comments, and each gives its text.
  induction comments with
  | nil => rfl
  | cons comment comments ih => rw [List.map_cons, commentsOf_cons, if_pos rfl, ih]; rfl

/-- The comments of the pieces of tokens are those of the tokens. -/
theorem commentsOf_pieces_tokens {tokens : List Token}
    (known : ∀ token ∈ tokens, token.kind ≠ .comment) :
    commentsOf (tokens.flatMap Token.pieces) = tokens.flatMap Token.comments := by
  -- A token's pieces are its comments and then itself, which is no comment.
  induction tokens with
  | nil => rfl
  | cons token tokens ih =>
    obtain ⟨here, others⟩ := List.forall_mem_cons.mp known
    rw [List.flatMap_cons, List.flatMap_cons, Token.pieces, commentsOf_append, commentsOf_append,
      commentsOf_map, commentsOf_cons, if_neg here, ih others]
    simp [commentsOf]

/-- The sweeps find no comment. -/
theorem commentsOf_onePass (boundary : Bool) (text : Text) :
    commentsOf (onePass sweeps boundary text) = [] := by
  -- what a sweep leaves is raw text or a piece of its own kind
  have all : ∀ sweep ∈ sweeps, sweep.kind ≠ .comment := by decide
  rw [commentsOf, List.map_eq_nil_iff, List.filter_eq_nil_iff]
  intro piece member comment
  rw [beq_iff_eq] at comment
  rcases exists_sweep_of_mem_onePass member with raw | ⟨sweep, among, kind, _⟩
  · cases comment.symm.trans raw
  · exact all sweep among (kind.symm.trans comment)

/-- The comments among the pieces of a text are those between which its raw text stands. -/
theorem commentsOf_pieces (text : Text) :
    commentsOf (pieces text) = commentsOf (scan (text.squeeze isLineBreak)) := by
  rw [pieces_eq]
  induction scan (text.squeeze isLineBreak) with
  | nil => rfl
  | cons piece found ih =>
    rw [List.map_cons, List.flatMap_cons, commentsOf_append, ih, commentsOf_cons piece]
    congr 1
    -- Raw text comes to no comment, and anything else to itself.
    by_cases raw : piece.kind = .raw
    · rw [lexPiece_of_raw raw, commentsOf_onePass]
      simp [raw]
    · rw [lexPiece_of_known raw, commentsOf_cons]
      exact List.append_nil _

/-- The comments among pieces are the texts of those that are comments. -/
theorem mem_commentsOf {found : List Piece} {comment : Text} :
    comment ∈ commentsOf found ↔ ⟨.comment, comment⟩ ∈ found := by
  -- A comment is found by its kind and given by its text.
  unfold commentsOf
  rw [List.mem_map]
  constructor
  · rintro ⟨⟨kind, text⟩, member, rfl⟩
    rw [List.mem_filter, beq_iff_eq] at member
    obtain ⟨among, rfl⟩ := member
    exact among
  · intro among
    exact ⟨⟨.comment, comment⟩, List.mem_filter.mpr ⟨among, rfl⟩, rfl⟩

/-- The leftovers among pieces are the texts of those that are raw and not blank. -/
theorem mem_leftovers {found : List Piece} {fragment : Text} :
    fragment ∈ leftovers found ↔ ⟨.raw, fragment⟩ ∈ found ∧ fragment.trim ≠ [] := by
  -- A leftover is found by its kind, and given unless blanks are all it has.
  unfold leftovers
  rw [List.mem_map]
  constructor
  · rintro ⟨⟨kind, text⟩, member, rfl⟩
    rw [List.mem_filter, Bool.and_eq_true, beq_iff_eq, bne_iff_ne] at member
    obtain ⟨among, rfl, solid⟩ := member
    exact ⟨among, solid⟩
  · rintro ⟨among, solid⟩
    exact ⟨⟨.raw, fragment⟩, List.mem_filter.mpr ⟨among, by simpa using solid⟩, rfl⟩

/-- The comments of flagged pieces are their own, and one for each leftover. -/
theorem mem_commentsOf_flagged {found : List Piece} {comment : Text} :
    comment ∈ commentsOf (found.flatMap flagLeftover) ↔ comment ∈ commentsOf found ∨
      ∃ fragment ∈ leftovers found, comment = unexpectedComment fragment := by
  rw [mem_commentsOf, mem_commentsOf, List.mem_flatMap]
  constructor
  · -- a piece that stays is a comment as before; a leftover flagged becomes one
    rintro ⟨⟨kind, text⟩, among, flagged⟩
    rcases mem_flagLeftover.mp flagged with ⟨_, same⟩ | ⟨rfl, solid, same⟩
    · cases same
      exact .inl among
    · cases same
      exact .inr ⟨text, mem_leftovers.mpr ⟨among, solid⟩, rfl⟩
  · rintro (own | ⟨fragment, left, rfl⟩)
    · exact ⟨_, own, mem_flagLeftover.mpr (.inl ⟨nofun, rfl⟩)⟩
    · obtain ⟨among, solid⟩ := mem_leftovers.mp left
      exact ⟨_, among, mem_flagLeftover.mpr (.inr ⟨rfl, solid, rfl⟩)⟩

/-- Where there are no comments among pieces, flagging makes one of each leftover, in their order. -/
theorem commentsOf_flagged {found : List Piece} (none : commentsOf found = []) :
    commentsOf (found.flatMap flagLeftover) = (leftovers found).map unexpectedComment := by
  induction found with
  | nil => rfl
  | cons piece found ih =>
    rw [commentsOf_cons, List.append_eq_nil_iff] at none
    have other : piece.kind ≠ .comment := by
      intro comment
      simp [comment] at none
    rw [List.flatMap_cons, commentsOf_append, ih none.2]
    -- A raw piece is flagged unless it is blank, and the others pass.
    unfold flagLeftover leftovers
    by_cases raw : piece.kind = .raw
    · by_cases bare : piece.text.trim = []
      · simp [raw, bare, commentsOf]
      · simp [raw, bare, commentsOf]
    · simp [raw, other, commentsOf]

/-- The comments of a flagged text are those that its scanned pieces come to, one after the other. -/
theorem commentsOf_flaggedPieces (text : Text) :
    commentsOf (flaggedPieces text) =
      (scan (text.squeeze isLineBreak)).flatMap commentsFrom := by
  -- The spans are swept and flagged one by one, and so it is enough to look at one.
  have one : ∀ span, commentsOf (flaggedPiece span) = commentsFrom span := by
    intro span
    have swept_eq : swept [span] = lexPiece span.normalize := foldl_apply_singleton _
    unfold commentsFrom
    by_cases raw : span.kind = .raw
    · rw [if_neg (by simp [raw]), swept_eq, flaggedPiece]
      refine commentsOf_flagged ?_
      rw [lexPiece_of_raw raw]
      exact commentsOf_onePass _ _
    · rw [flaggedPiece_of_known raw, commentsOf_cons]
      split
      · exact List.append_nil _
      · -- A literal span has no leftovers.
        rw [swept_eq, lexPiece_of_known raw]
        simp [leftovers, raw, commentsOf]
  rw [flaggedPieces_eq]
  induction scan (text.squeeze isLineBreak) with
  | nil => rfl
  | cons span found ih => rw [List.flatMap_cons, commentsOf_append, one, ih, List.flatMap_cons]

end Pieces

section Attached

variable {trailing : List Text} {tokens : List Token}

/-- Trailing comments are kept if there is a token to keep them. -/
theorem comments_attachTrailing (some : tokens ≠ []) :
    (attachTrailing trailing tokens).flatMap Token.comments =
      tokens.flatMap Token.comments ++ trailing := by
  induction tokens with
  | nil => exact absurd rfl some
  | cons first tokens ih =>
    -- the trailing comments are the last token's, behind its own
    cases tokens with
    | nil => simp [attachTrailing]
    | cons second tokens => rw [attachTrailing, List.flatMap_cons, ih (by simp)]; simp

/-- Trailing comments go to the last token, which may be the one at a given place. -/
theorem attachTrailing_append (trailing : List Text) (before : List Token) (token : Token)
    (after : List Token) :
    ∃ added after', attachTrailing trailing (before ++ token :: after) =
        before ++ { token with comments := token.comments ++ added } :: after' ∧
      (after = [] → added = trailing) := by
  -- The tokens in front are passed, as there is another one behind each of them.
  induction before with
  | nil =>
    cases after with
    | nil => exact ⟨trailing, [], rfl, fun _ => rfl⟩
    | cons next rest =>
      refine ⟨[], attachTrailing trailing (next :: rest), ?_, nofun⟩
      cases token
      simp [attachTrailing]
  | cons first before ih =>
    obtain ⟨added, after', same, last⟩ := ih
    refine ⟨added, after', ?_, last⟩
    -- There are more tokens behind the first one.
    have more : before ++ token :: after ≠ [] := by simp
    obtain ⟨next, rest, split⟩ := List.exists_cons_of_ne_nil more
    rw [List.cons_append, List.cons_append, ← same, split]
    rfl

/-- A comment among the pieces of tokens is one of a token, or one of those behind all tokens. -/
theorem exists_token_of_split {front back : List Piece} {comment : Text}
    (known : ∀ token ∈ tokens, token.kind ≠ .comment)
    (split : tokens.flatMap Token.pieces ++ trailing.map (Piece.mk .comment) =
      front ++ ⟨.comment, comment⟩ :: back) :
    (∃ before token after own later, tokens = before ++ token :: after ∧
      token.comments = own ++ comment :: later ∧
      front = before.flatMap Token.pieces ++ own.map (Piece.mk .comment) ∧
      ∃ rest, back = later.map (Piece.mk .comment) ++ token.piece :: rest) ∨
    ∃ own later, trailing = own ++ comment :: later ∧
      front = tokens.flatMap Token.pieces ++ own.map (Piece.mk .comment) ∧
      back = later.map (Piece.mk .comment) := by
  -- The split falls within the pieces of the first token, or behind them.
  induction tokens generalizing front with
  | nil =>
    obtain ⟨own, rest, same, rfl, tail⟩ := List.map_eq_append_iff.mp split
    obtain ⟨later, last, rfl, here, rfl⟩ := List.map_eq_cons_iff.mp tail
    cases here
    exact .inr ⟨own, last, same, rfl, rfl⟩
  | cons token tokens ih =>
    obtain ⟨here, others⟩ := List.forall_mem_cons.mp known
    have parts : token.comments.map (Piece.mk .comment) ++
        token.piece :: (tokens.flatMap Token.pieces ++ trailing.map (Piece.mk .comment)) =
          front ++ ⟨.comment, comment⟩ :: back := by
      rw [← split, List.flatMap_cons, Token.pieces, Token.piece]
      simp
    have apart : token.piece ≠ ⟨.comment, comment⟩ := fun same => here (congrArg Piece.kind same)
    rcases List.append_eq_append_iff.mp parts with ⟨behind, rfl, later⟩ | ⟨inside, own, later⟩
    · -- The comment stands behind the first token.
      rcases behind with _ | ⟨first, behind⟩
      · exact absurd (List.cons.inj later).1 apart
      · obtain ⟨rfl, deeper⟩ := List.cons.inj later
        rcases ih others deeper with
          ⟨before, owner, after, own, rest, rfl, comments, rfl, follows⟩ | ⟨own, rest, same, rfl, last⟩
        · refine .inl ⟨token :: before, owner, after, own, rest, rfl, comments, ?_, follows⟩
          simp [Token.pieces, Token.piece]
        · refine .inr ⟨own, rest, same, ?_, last⟩
          simp [Token.pieces, Token.piece]
    · -- The comment is one of those of the first token.
      rcases inside with _ | ⟨first, inside⟩
      · exact absurd (List.cons.inj later).1.symm apart
      · obtain ⟨rfl, rfl⟩ := List.cons.inj later
        obtain ⟨earlier, rest, same, rfl, tail⟩ := List.map_eq_append_iff.mp own
        obtain ⟨last, rest, rfl, written, rfl⟩ := List.map_eq_cons_iff.mp tail
        cases written
        exact .inl ⟨[], token, tokens, earlier, rest, rfl, same, rfl, _, rfl⟩

/-- The pieces of tokens that are no comments are what the tokens say. -/
theorem withoutComments_pieces {tokens : List Token} (comments : List Text)
    (known : ∀ token ∈ tokens, token.kind ≠ .comment) :
    withoutComments (tokens.flatMap Token.pieces ++ comments.map (Piece.mk .comment)) =
      tokens.map Token.piece := by
  have none : ∀ comments : List Text, withoutComments (comments.map (Piece.mk .comment)) = [] := by
    simp [withoutComments]
  induction tokens with
  | nil => exact none comments
  | cons token tokens ih =>
    obtain ⟨here, others⟩ := List.forall_mem_cons.mp known
    have own := none token.comments
    have later := ih others
    -- the comments are filtered out and the token's own piece stays
    unfold withoutComments at own later ⊢
    rw [List.flatMap_cons, Token.pieces, List.append_assoc, List.append_assoc, List.filter_append,
      own, List.nil_append, List.singleton_append, List.filter_cons_of_pos (by simpa using here),
      later]
    rfl

/-- Comments are attached to the tokens that pieces come to, whatever the pieces are. -/
theorem attached_attachComments {found : List Piece} (some : attachComments found ≠ []) :
    Attached found (attachComments found) := by
  -- The pieces are gathered into tokens, and what is left over goes to the last one.
  obtain ⟨whole, plain⟩ := pieces_gather [] found
  have said := map_piece_gather [] found
  rw [attachComments] at some ⊢
  rcases cut : gather [] found with ⟨tokens, trailing⟩
  rw [cut] at whole plain said some
  simp only [List.map_nil, List.nil_append] at whole said some plain ⊢
  have known : ∀ token ∈ tokens, token.kind ≠ .comment := fun token member => (plain token member).1
  have some' : tokens ≠ [] := by
    rintro rfl
    exact some rfl
  refine ⟨(map_piece_attachTrailing trailing tokens).trans said, ?_, ?_⟩
  · rw [comments_attachTrailing some', ← whole, commentsOf_append, commentsOf_pieces_tokens known,
      commentsOf_map]
  · intro front comment back split
    rw [← whole] at split
    rcases exists_token_of_split known split with
      ⟨before, token, after, own, later, rfl, comments, rfl, rest, rfl⟩ |
      ⟨own, later, rfl, rfl, rfl⟩
    · -- The comment stands in front of its token.
      obtain ⟨earlier, behind⟩ := List.forall_mem_append.mp known
      have here := behind token (.head after)
      obtain ⟨added, after', same, _⟩ := attachTrailing_append trailing before token after
      refine ⟨before, _, after', own, later ++ added, same, ?_, by simp [comments], ?_⟩
      · rw [← withoutComments_pieces own earlier]
        exact .next (by simp) here rfl
      · rw [commentsOf_append, commentsOf_pieces_tokens earlier, commentsOf_map]
    · -- No token follows the comment, and so it goes to the last one.
      obtain ⟨before, last, rfl⟩ := List.eq_nil_or_concat' tokens |>.resolve_left some'
      obtain ⟨earlier, behind⟩ := List.forall_mem_append.mp known
      have here := behind last (.head [])
      obtain ⟨added, after', same, all⟩ :=
        attachTrailing_append (own ++ comment :: later) before last []
      rw [all rfl] at same
      refine ⟨before, _, after', last.comments ++ own, later, same, ?_, by simp, ?_⟩
      · rw [← withoutComments_pieces last.comments earlier]
        have front : (before ++ [last]).flatMap Token.pieces ++ own.map (Piece.mk .comment) =
            (before.flatMap Token.pieces ++ last.comments.map (Piece.mk .comment)) ++
              last.piece :: own.map (Piece.mk .comment) := by
          simp [Token.pieces, Token.piece]
        exact .last (by simp) (by simp) here front
      · rw [List.flatMap_append, commentsOf_append, commentsOf_append, commentsOf_map,
          commentsOf_pieces_tokens earlier, commentsOf_pieces_tokens behind]
        simp

/-- The comments of a text that has a token are attached to its tokens. -/
theorem attached_tokenize {text : Text} (some : tokenize text ≠ []) :
    Attached (flaggedPieces text) (tokenize text) :=
  -- The tokens are the flagged pieces with their comments attached.
  attached_attachComments some

/--
All comments of a text that has a token are attached to its tokens, and none is lost or moved.

They are the comments written in the text and one for each leftover, in the order of the text.
Each is with the first token behind it, or with the last token there is.
What is left are lexical tokens with text, and no comments or raw pieces are among them.
-/
theorem tokenize_attached {sql : Text} (some : tokenize sql ≠ []) :
    Attached (flaggedPieces sql) (tokenize sql) ∧
    commentsOf (flaggedPieces sql) = (scan (sql.squeeze isLineBreak)).flatMap commentsFrom ∧
    ∀ token ∈ tokenize sql, token.kind.isLexical = true ∧ token.kind ≠ .raw ∧
      token.kind ≠ .comment ∧ token.text ≠ [] ∧ token.children = [] := by
  -- The order of the comments and the shape of the tokens were shown apart.
  refine ⟨attached_tokenize some, commentsOf_flaggedPieces sql, ?_⟩
  intro token member
  have whole := (tokenize_whole sql).1 token member
  obtain ⟨lexical, solid⟩ := whole.text.lexical
  exact ⟨lexical, solid, whole.kind, whole.text.edges.1, whole.leaf⟩

/-- Comments in front of a token, between leftovers, and behind the last token. -/
theorem tokenize_attached_leftovers :
    let sql := "{a} select x; {b} from t /*c*/ ;".toList
    tokenize sql ≠ [] ∧
    (tokenize sql).map Token.comments = [["{a}".toList], [],
      ["/*XXX unexpected token: ;*/".toList, "{b}".toList],
      ["/*c*/".toList, "/*XXX unexpected token: ;*/".toList]] ∧
    Attached (flaggedPieces sql) (tokenize sql) := by
  -- The tokens are computed; to whom the comments belong is the general law.
  intro sql
  have some : tokenize sql ≠ [] := by decide +kernel
  exact ⟨some, by decide +kernel, (tokenize_attached some).1⟩

end Attached

end SqlLayout
