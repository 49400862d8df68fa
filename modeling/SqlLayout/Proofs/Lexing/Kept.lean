import SqlLayout.Proofs.Lexing.LineBreaks
import SqlLayout.Proofs.Lexing.Runs

/-!
What lexing keeps.

Raw text loses nothing but blanks on its way through the sweeps, and changes nothing but its case.
Literal spans pass as they are, whatever line breaks they hold.
-/

namespace SqlLayout

/-- Whether a piece is a text literal or a quoted name. -/
def Piece.isQuoted (piece : Piece) : Bool :=
  piece.kind == .text || piece.kind == .name && piece.text.head? == some '"'

/-- What a piece of a scanned text says, in upper case if it is raw. -/
def Piece.cased (span : Piece) : Text :=
  if span.kind = .raw then span.text.upper else span.text

/-- A piece of a scanned text, and the pieces it is cut into. -/
inductive CutInto : Piece → List Piece → Prop where
  /-- A literal span stays in one piece, as it is. -/
  | span {span : Piece} : span.kind ≠ .raw → CutInto span [span]
  /-- Raw text is cut into pieces that are no literal spans, and loses nothing but blanks. -/
  | raw {text : Text} {cut : List Piece} :
    (∀ piece ∈ cut, piece.kind ≠ .comment ∧ piece.isQuoted = false) →
    Text.ink (cut.flatMap Piece.text) = text.upper.ink → CutInto ⟨.raw, text⟩ cut

section Raw

/-- Pieces that make up a text have all of its ink. -/
theorem Laid.ink {found : List Piece} {text : Text} (laid : Laid found text) :
    Text.ink (found.flatMap Piece.text) = text.ink := by
  -- The text has blanks beside its pieces, and they leave no ink.
  induction laid with
  | done blank => rw [Text.ink_of_blank blank]; rfl
  | piece blank _ ih =>
    rw [List.flatMap_cons, Text.ink_append, Text.ink_append, Text.ink_append, ih,
      Text.ink_of_blank blank, List.nil_append]

/-- Drawing blanks together takes no ink of a text in upper case. -/
theorem ink_upper_squeezeFrom (inside : Bool) (text : Text) :
    Text.ink (Text.squeezeFrom isBlank inside text).upper = text.upper.ink := by
  -- A blank leaves no ink whether it is kept or dropped, and any other character is kept.
  induction text generalizing inside with
  | nil => rfl
  | cons c rest ih =>
    have upper : Text.upper (c :: rest) = upperChar c ++ Text.upper rest := rfl
    rw [upper, Text.ink_append]
    rcases blank : isBlank c with _ | _
    · have kept : Text.upper (Text.squeezeFrom isBlank inside (c :: rest)) =
          upperChar c ++ Text.upper (Text.squeezeFrom isBlank false rest) := by
        rw [squeezeFrom_cons blank]
        rfl
      rw [kept, Text.ink_append, ih]
    · -- A blank has no ink, and the one that stands for a run has none either.
      have bare : Text.ink (upperChar c) = [] := by
        rw [upperChar_blank blank]
        exact Text.ink_of_blank (by simpa [Text.Blank] using blank)
      rw [bare, List.nil_append, Text.squeezeFrom, if_pos blank]
      split
      · exact ih true
      · have front : Text.upper (' ' :: Text.squeezeFrom isBlank true rest) =
            [' '] ++ Text.upper (Text.squeezeFrom isBlank true rest) := rfl
        rw [front, Text.ink_append, ih]
        rfl

/-- A name that a sweep finds is made of name characters. -/
theorem named_of_here? {sweep : Sweep} (member : sweep ∈ sweeps) (name : sweep.kind = .name)
    {boundary : Bool} {text word after : Text}
    (found : sweep.pattern.here? boundary text = some (word, after)) :
    ∀ c ∈ word, isNameChar c = true := by
  -- Names are the only pieces of their kind, and they are not listed.
  have unlisted : ∀ sweep ∈ sweeps, sweep.kind = .name → sweep.pattern.alternatives = [] := by
    decide
  have none : word ∉ sweep.pattern.alternatives := by
    rw [unlisted sweep member name]
    exact List.not_mem_nil
  obtain ⟨pattern, kind⟩ := sweep
  cases pattern with
  | words alternatives _ => exact absurd (Pattern.here?_words found).2.1 none
  | symbols alternatives _ => exact absurd (Pattern.here?_symbols found).1 none
  | nameRun => exact List.all_eq_true.mp (Pattern.here?_nameRun found).2.1

/-- What the sweeps leave of raw text is no literal span. -/
theorem not_quoted_of_mem_onePass {boundary : Bool} {text : Text} {piece : Piece}
    (member : piece ∈ onePass sweeps boundary text) :
    piece.kind ≠ .comment ∧ piece.isQuoted = false := by
  -- what the lexer cuts is raw or has a sweep's kind, and no sweep makes comments or literals
  have all : ∀ sweep ∈ sweeps, sweep.kind ≠ .comment ∧ sweep.kind ≠ .text := by decide
  rcases exists_sweep_of_mem_onePass member with
    raw | ⟨sweep, among, kind, boundary, here, after, found⟩
  · simp [Piece.isQuoted, raw]
  · rw [kind]
    refine ⟨(all sweep among).1, ?_⟩
    -- a name the lexer cuts is spelled in name characters, and a quote is none
    have other : piece.kind = .name → piece.text.head? ≠ some '"' := by
      intro name quote
      have named := named_of_here? among (kind.symm.trans name) found '"' (List.mem_of_mem_head? quote)
      cases named
    simpa [Piece.isQuoted, kind, (all sweep among).2] using other

/-- Each piece of a scanned text is cut into pieces that make it up. -/
theorem cutInto_lexPiece (span : Piece) : CutInto span (lexPiece span.normalize) := by
  -- raw text is upper-cased and cut, any other span passes as it is
  by_cases raw : span.kind = .raw
  · obtain ⟨kind, text⟩ := span
    cases raw
    rw [lexPiece_of_raw rfl]
    refine .raw (fun piece member => not_quoted_of_mem_onePass member) ?_
    rw [(laid_onePass sweeps true _).ink]
    exact ink_upper_squeezeFrom false text
  · rw [lexPiece_of_known raw]
    exact .span raw

/-- A piece has the ink of the pieces it is cut into. -/
theorem CutInto.ink {span : Piece} {cut : List Piece} (parts : CutInto span cut) :
    Text.ink (cut.flatMap Piece.text) = span.cased.ink := by
  -- A known span stays as it is, and the ink of a raw one is in the pieces it is cut into.
  cases parts with
  | span known => simp [Piece.cased, known]
  | raw _ same => rw [same, Piece.cased, if_pos rfl]

/-- Pieces one behind the other have the ink of all that they are cut into. -/
theorem ink_flatten {spans : List Piece} {cuts : List (List Piece)}
    (parts : List.Forall₂ CutInto spans cuts) :
    Text.ink (cuts.flatten.flatMap Piece.text) = Text.ink (spans.flatMap Piece.cased) := by
  -- Ink goes over appending, span by span.
  induction parts with
  | nil => rfl
  | cons first _ ih =>
    rw [List.flatten_cons, List.flatMap_append, Text.ink_append, first.ink, ih, List.flatMap_cons,
      Text.ink_append]

/--
The sweeps lose no text.

But for blanks, the pieces of a text say in their order what the scanned text says, with raw text in
upper case.
Every comment, text literal and quoted name stays as it is, in its place between the pieces that the
raw text around it is cut into.
-/
theorem ink_pieces (sql : Text) :
    Text.ink ((pieces sql).flatMap Piece.text) =
      Text.ink ((scan (sql.squeeze isLineBreak)).flatMap Piece.cased) ∧
    ∃ cuts, List.Forall₂ CutInto (scan (sql.squeeze isLineBreak)) cuts ∧
      pieces sql = cuts.flatten := by
  -- span by span, the lexer cuts what it is given and nothing across two spans
  have parts : List.Forall₂ CutInto (scan (sql.squeeze isLineBreak))
      ((scan (sql.squeeze isLineBreak)).map fun span => lexPiece span.normalize) := by
    rw [List.forall₂_map_right_iff, List.forall₂_same]
    exact fun span _ => cutInto_lexPiece span
  have whole : pieces sql =
      ((scan (sql.squeeze isLineBreak)).map fun span => lexPiece span.normalize).flatten := by
    rw [pieces_eq, List.flatMap_map]
    rfl
  refine ⟨?_, _, parts, whole⟩
  rw [whole]
  exact ink_flatten parts

end Raw

section Quoted

variable {gap : Char → Bool} {sort : Kind → Bool} (solid : sort .raw = false)

include solid

/-- A raw character leaves the pieces that are not raw. -/
theorem filter_pushRaw (c : Char) (found : List Piece) :
    (pushRaw c found).filter (fun piece => sort piece.kind) =
      found.filter fun piece => sort piece.kind := by
  -- The character only makes or lengthens a raw piece, which is left out.
  unfold pushRaw
  split
  · simp [solid]
  · simp [solid]

/-- The literal spans of a text are those of the text with its gaps drawn together. -/
theorem spans_squeezeFrom (blank : ∀ c, gap c = true → isBlank c = true) (inside : Bool)
    (text : Text) :
    (scan (Text.squeezeFrom gap inside text)).filter (fun span => sort span.kind) =
      ((scan text).filter fun span => sort span.kind).map (Piece.squeeze gap) := by
  -- The scan of the squeezed text goes step by step with that of the text.
  fun_induction scan text generalizing inside with
  | case1 => rw [Text.squeezeFrom, scan]; rfl
  | case2 c rest span after found ih =>
    -- A literal span begins with no blank, and is found again.
    have kept : gap c = false := by
      refine Bool.eq_false_iff.mpr fun gapped => ?_
      rw [literal?_of_blank (blank c gapped)] at found
      cases found
    have squeezed := literal?_squeeze blank c rest
    rw [found, Option.map_some] at squeezed
    have later := ih false
    have same : (span.squeeze gap).kind = span.kind := rfl
    rw [squeezeFrom_cons kept, scan_of_literal? squeezed, List.filter_cons, List.filter_cons, same]
    split
    · exact congrArg _ later
    · exact later
  | case3 c rest absent ih =>
    rw [filter_pushRaw solid]
    rcases here : gap c with _ | _
    · have squeezed := literal?_squeeze blank c rest
      rw [absent, Option.map_none] at squeezed
      rw [squeezeFrom_cons here, scan_of_plain squeezed, filter_pushRaw solid]
      exact ih false
    · -- A gap is raw, whether anything stands for it or not.
      rw [Text.squeezeFrom, if_pos here]
      split
      · exact ih true
      · rw [scan_of_plain (literal?_of_blank rfl), filter_pushRaw solid]
        exact ih true

omit solid

/-- A literal span is quoted exactly when it is a text literal or a name. -/
theorem isQuoted_of_isLiteral {span : Piece} (literal : span.IsLiteral) :
    span.isQuoted = (span.kind == .text || span.kind == .name) := by
  -- a literal opens with the sign of its kind, and only the quotes make it quoted
  obtain ⟨opening, closing, encloses, ⟨rest, front⟩, _⟩ := literal?_encloses literal
  obtain ⟨kind, text⟩ := span
  change opening ++ rest = text at front
  subst front
  cases encloses with
  | text => rfl
  | name => rfl
  | braces => rfl
  | stars => rfl

/-- Of a scanned piece, what is quoted in the end is the piece itself, if it is quoted. -/
theorem filter_flaggedPiece {span : Piece} (literal : span.kind ≠ .raw → span.IsLiteral) :
    (flaggedPiece span).filter Piece.isQuoted =
      [span].filter fun span => span.kind == .text || span.kind == .name := by
  by_cases raw : span.kind = .raw
  · obtain ⟨kind, text⟩ := span
    cases raw
    rw [flaggedPiece_of_raw, List.filter_eq_nil_iff.mpr]
    · rfl
    · -- What a leftover becomes is a comment.
      intro piece member
      obtain ⟨cut, among, flagged⟩ := List.mem_flatMap.mp member
      rcases mem_flagLeftover.mp flagged with ⟨_, rfl⟩ | ⟨_, _, rfl⟩
      · rw [(not_quoted_of_mem_onePass among).2]
        exact Bool.false_ne_true
      · exact Bool.false_ne_true
  · rw [flaggedPiece_of_known raw, List.filter_singleton, List.filter_singleton,
      isQuoted_of_isLiteral (literal raw)]

/-- What is quoted among the pieces of a text are the quoted spans that it is scanned into. -/
theorem filter_flaggedPieces (sql : Text) :
    (flaggedPieces sql).filter Piece.isQuoted =
      (scan (sql.squeeze isLineBreak)).filter fun span =>
        span.kind == .text || span.kind == .name := by
  have spans := (scanned_squeeze sql).spans
  rw [flaggedPieces_eq]
  generalize scan (sql.squeeze isLineBreak) = found at spans
  -- by induction over the spans: only a quoted span contributes, and it contributes itself
  induction found with
  | nil => rfl
  | cons span found ih =>
    obtain ⟨here, others⟩ := List.forall_mem_cons.mp spans
    rw [List.flatMap_cons, List.filter_append, filter_flaggedPiece fun known => (here known).1,
      ih others, ← List.filter_append, List.singleton_append]

/--
Literals survive lexing.

The text literals and quoted names among the tokens of a text are, in order, the spans of these
kinds that the text as it was written is scanned into.
Only a run of line breaks inside a span becomes one blank.
-/
theorem quoted_tokenize (sql : Text) :
    ((tokenize sql).map Token.piece).filter Piece.isQuoted =
      ((scan sql).filter fun span => span.kind == .text || span.kind == .name).map
        (Piece.squeeze isLineBreak) := by
  -- Comments are not quoted, and so it makes no difference that they are left out.
  have said : ((tokenize sql).map Token.piece).filter Piece.isQuoted =
      (flaggedPieces sql).filter Piece.isQuoted := by
    rw [← tokenPieces, tokenPieces_eq, List.filter_filter]
    refine List.filter_congr fun piece _ => ?_
    by_cases comment : piece.kind = .comment
    · simp [Piece.isQuoted, comment]
    · simp [comment]
  rw [said, filter_flaggedPieces]
  exact @spans_squeezeFrom isLineBreak (fun kind => kind == .text || kind == .name) rfl
    (fun _ => isBlank_of_isLineBreak) false sql

end Quoted

end SqlLayout
