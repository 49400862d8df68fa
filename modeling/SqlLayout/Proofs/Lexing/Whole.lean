import SqlLayout.Proofs.Lexing.Lexeme
import SqlLayout.Proofs.Lexing.Literal
import SqlLayout.Proofs.Lexing.Normal

/-! Whole pieces: what lexing cuts a text into stands by itself, and neighbours do not join. -/

namespace SqlLayout

/-- A piece that is read as what it is wherever it stands apart. -/
inductive Piece.Whole (piece : Piece) : Prop where
  /-- A literal span on one line. -/
  | literal (literal : piece.IsLiteral) (oneLine : ∀ c ∈ piece.text, isLineBreak c = false)
  /-- A lexeme in upper case. -/
  | lexeme (lexeme : piece.IsLexeme) (capital : piece.text.upper = piece.text)

/-- A text of which upper-casing changes no character is left as it is. -/
theorem upper_eq_self {text : Text} (capital : ∀ c ∈ text, upperChar c = [c]) :
    text.upper = text := by
  -- Every character is its own upper case.
  induction text with
  | nil => rfl
  | cons c text ih =>
    obtain ⟨first, rest⟩ := List.forall_mem_cons.mp capital
    change upperChar c ++ Text.upper text = c :: text
    rw [first, ih rest]
    rfl

/-- A line break is a blank. -/
theorem isBlank_of_isLineBreak {c : Char} (line : isLineBreak c = true) : isBlank c = true := by
  -- There are two line breaks, and both are blanks.
  simp only [isLineBreak, Bool.or_eq_true, beq_iff_eq] at line
  rcases line with rfl | rfl
  · rfl
  · rfl

/-- Normal text has no line breaks. -/
theorem Text.Normal.oneLine {text : Text} (normal : Normal text) :
    ∀ c ∈ text, isLineBreak c = false := by
  -- A line break would be a blank, and the only blank of a normal text is the space.
  intro c member
  by_contra line
  have line : isLineBreak c = true := by simpa using line
  rw [normal.blanks c member (isBlank_of_isLineBreak line)] at line
  cases line

/-- A lexeme in normal text is whole. -/
theorem Piece.IsLexeme.whole {piece : Piece} (lexeme : piece.IsLexeme) {before after : Text}
    (normal : Text.Normal (before ++ (piece.text ++ after))) : piece.Whole := by
  -- A listed word is in upper case, and a run of name characters is part of a normal text.
  refine .lexeme lexeme ?_
  rcases lexeme.listed_or_named with listed | named
  · exact (normal_of_listed listed).2.1
  · exact upper_eq_self fun c member => normal.capital c (by simp [member]) (named c member)

/-- A name character is always at the front of some piece. -/
theorem frontPiece?_of_name {boundary : Bool} {c : Char} {rest : Text}
    (name : isNameChar c = true) : frontPiece? sweeps boundary (c :: rest) ≠ none := by
  -- At a name character the sweep for names has a match, if no other has.
  intro absent
  have none := frontPiece?_eq_none.mp absent ⟨.nameRun, .name⟩ (by simp [sweeps])
  simp [Pattern.here?, name] at none

/-- Where nothing is met on the way to a place, no name character stands on it. -/
theorem not_isNameChar_of_absent {boundary : Bool} {before here : Text}
    (absent : ∀ first second, before = first ++ second → second ≠ [] →
      frontPiece? sweeps (wordEdge boundary first) (second ++ here) = none) :
    ∀ c ∈ before, isNameChar c = false := by
  intro c member
  obtain ⟨first, second, rfl⟩ := List.append_of_mem member
  -- A name character would itself be at the front of a piece.
  by_contra name
  apply @frontPiece?_of_name (wordEdge boundary first) c (second ++ here) (by simpa using name)
  exact absent first (c :: second) rfl nofun

/-- Behind a piece a word may begin, or else none does. -/
theorem starts_behind {boundary : Bool} {text rest : Text} {piece : Piece}
    (found : frontPiece? sweeps boundary text = some (piece, rest)) :
    wordEdge true piece.text = true ∨ endsWord rest = true := by
  -- Either the piece ends on no name character, or none follows it.
  rcases edge : wordEdge true piece.text with _ | _
  · exact .inr (endsWord_of_frontPiece? found edge)
  · exact .inl rfl

/-- A star is always at the front of some piece. -/
theorem frontPiece?_of_star {boundary : Bool} {rest : Text} :
    frontPiece? sweeps boundary ('*' :: rest) ≠ none := by
  -- the star is one of the signs that some sweep looks for
  have listed : ∃ sweep ∈ sweeps, sweep.pattern.isWordy = false ∧
      ['*'] ∈ sweep.pattern.alternatives := by
    decide +kernel
  obtain ⟨⟨pattern, kind⟩, member, signs, among⟩ := listed
  intro absent
  have none := frontPiece?_eq_none.mp absent _ member
  cases pattern with
  | words _ _ => cases signs
  | nameRun => cases signs
  | symbols alternatives solid =>
    rw [Pattern.here?, List.findSome?_eq_none_iff] at none
    have here := none _ among
    simp [Text.after?] at here

/-- Where no word begins it makes no difference whether one may. -/
theorem frontPiece?_of_endsWord {boundary : Bool} {text : Text} (ends : endsWord text = true) :
    frontPiece? sweeps boundary text = frontPiece? sweeps true text := by
  -- No pattern asks for the boundary where no name character follows.
  refine findSome?_congr fun sweep member => ?_
  rw [(Pattern.tidy (wellSpelled_sweeps member)).free ends]

/-- A piece met in a text is found there as at the front of a word. -/
theorem frontPiece?_of_met {boundary : Bool} {text before here : Text}
    (start : boundary = true ∨ endsWord text = true) (split : text = before ++ here)
    (absent : ∀ first second, before = first ++ second → second ≠ [] →
      frontPiece? sweeps (wordEdge boundary first) (second ++ here) = none) :
    frontPiece? sweeps (wordEdge boundary before) here = frontPiece? sweeps true here := by
  -- behind what was passed over a word may begin: its last character is no name
  rcases List.eq_nil_or_concat' before with rfl | ⟨first, c, rfl⟩
  · rcases start with rfl | ends
    · rfl
    · rw [split] at ends
      exact frontPiece?_of_endsWord ends
  · have other : isNameChar c = false := not_isNameChar_of_absent absent c (by simp)
    rw [wordEdge_append, wordEdge_cons, other]
    rfl

/-- A piece that begins with no name character joins nothing behind it. -/
theorem not_joins_of_literal {piece : Piece} (literal : piece.IsLiteral) (next : Text) :
    joins piece.text next = false ∧ joins next piece.text = false := by
  obtain ⟨c, front, member⟩ := literal.edges.1
  -- a literal begins with a sign, and an entry joined of words with a name
  have other : piece.text.head?.any isNameChar = false := by
    have all : ['\'', '"', '\x7b', '/'].all (fun c => !isNameChar c) = true := by decide
    rw [front]
    simpa using List.all_eq_true.mp all c member
  refine ⟨Bool.eq_false_iff.mpr fun joined => ?_, Bool.eq_false_iff.mpr fun joined => ?_⟩
  · exact Bool.false_ne_true (other.symm.trans (heads_of_joins joined).1)
  · exact Bool.false_ne_true (other.symm.trans (heads_of_joins joined).2)

/-- The comment on a fragment without stars and line breaks is a literal span on one line. -/
theorem whole_unexpectedComment {text : Text} (plain : '*' ∉ text)
    (oneLine : ∀ c ∈ text, isLineBreak c = false) :
    Piece.IsLiteral ⟨.comment, unexpectedComment text⟩ ∧
      ∀ c ∈ unexpectedComment text, isLineBreak c = false := by
  have opening : ∃ body, "/*XXX unexpected token: ".toList = '/' :: '*' :: body ∧ '*' ∉ body ∧
      ∀ c ∈ body, isLineBreak c = false :=
    ⟨"XXX unexpected token: ".toList, by decide +kernel⟩
  obtain ⟨body, split, plain', oneLine'⟩ := opening
  have closing : "*/".toList = ['*', '/'] := by decide +kernel
  have whole : unexpectedComment text = '/' :: '*' :: (body ++ text ++ ['*', '/']) :=
    congrArg₂ (fun front back => front ++ text ++ back) split closing
  -- written out, it is one span between its two ends, and holds no star of its own
  rw [whole]
  refine ⟨isLiteral_of_stars (by simp [plain, plain']), ?_⟩
  intro c member
  simp only [List.mem_cons, List.mem_append, List.not_mem_nil, or_false] at member
  rcases member with rfl | rfl | (front | within) | rfl | rfl
  · rfl
  · rfl
  · exact oneLine' c front
  · exact oneLine c within
  · rfl
  · rfl

/-- What trimming leaves of a text are characters of it. -/
theorem Text.mem_of_mem_trim {text : Text} {c : Char} (member : c ∈ text.trim) : c ∈ text := by
  -- What is left of a trimmed text is a part of it.
  obtain ⟨front, back, _, _, split⟩ := exists_trim text
  rw [split]
  simp [member]

/-- Flagging turns raw pieces that are not blank into comments, and lets the others pass. -/
theorem mem_flagLeftover {cut piece : Piece} :
    piece ∈ flagLeftover cut ↔ cut.kind ≠ .raw ∧ piece = cut ∨
      cut.kind = .raw ∧ cut.text.trim ≠ [] ∧ piece = ⟨.comment, unexpectedComment cut.text⟩ := by
  -- A known piece stays, bare raw text goes, and other raw text is replaced by its comment.
  unfold flagLeftover
  split
  · rename_i raw
    split
    · rename_i bare
      simp [raw, bare]
    · rename_i solid
      simp [raw, solid]
  · rename_i known
    simp [known]

/-- A text in which nothing is met comes to nothing, or else to a comment of its own. -/
theorem flagLeftover_fragment {boundary : Bool} {text here : Text} (normal : Text.Normal text)
    (absent : ∀ first second, text = first ++ second → second ≠ [] →
      frontPiece? sweeps (wordEdge boundary first) (second ++ here) = none) :
    (Text.Blank text ∧ (fragment text).flatMap flagLeftover = []) ∨
      ∃ comment : Piece, comment.IsLiteral ∧ (∀ c ∈ comment.text, isLineBreak c = false) ∧
        (fragment text).flatMap flagLeftover = [comment] := by
  have plain : '*' ∉ text.trim := by
    intro member
    obtain ⟨first, second, split⟩ := List.append_of_mem (Text.mem_of_mem_trim member)
    exact frontPiece?_of_star (absent first ('*' :: second) split nofun)
  have oneLine : ∀ c ∈ text.trim, isLineBreak c = false :=
    fun c member => normal.oneLine c (Text.mem_of_mem_trim member)
  -- what is left is all blank, or it is put into one comment
  by_cases bare : text.trim = []
  · exact .inl ⟨Text.trim_eq_nil_iff.mp bare, by simp [fragment, bare]⟩
  · obtain ⟨literal, line⟩ := whole_unexpectedComment plain oneLine
    exact .inr ⟨_, literal, line, by simp [fragment, bare, flagLeftover, Text.trim_trim]⟩

/-- What has to hold of a text and of the pieces it is cut into. -/
structure Cleanly (text : Text) (found : List Piece) : Prop where
  /-- Every piece is whole. -/
  whole : ∀ piece ∈ found, piece.Whole
  /-- No piece joins the next one. -/
  apart : found.IsChain fun piece next => joins piece.text next.text = false
  /-- A lexeme that is not read on into the text does not join its first piece. -/
  front : ∀ piece : Piece, piece.IsLexeme → Free piece.text text →
    (wordEdge true piece.text = false → endsWord text = true) →
    ∀ next ∈ found.head?, joins piece.text next.text = false

/-- A piece that a sweep finds is not raw. -/
theorem kind_ne_raw {boundary : Bool} {text after : Text} {piece : Piece}
    (found : frontPiece? sweeps boundary text = some (piece, after)) : piece.kind ≠ .raw := by
  -- A piece is of its sweep's kind, and no sweep is for raw text.
  have all : ∀ sweep ∈ sweeps, sweep.kind ≠ .raw := by decide
  obtain ⟨sweep, member, kind, _⟩ := frontPiece?_eq_some found
  rw [kind]
  exact all sweep member

/-- A lexeme that touches a word does not join it. -/
theorem not_joins_of_touch {piece next : Piece} {after : Text} (lexeme : piece.IsLexeme)
    (ends : wordEdge true piece.text = false → endsWord (next.text ++ after) = true) :
    joins piece.text next.text = false := by
  refine Bool.eq_false_iff.mpr fun joined => ?_
  obtain ⟨first, second⟩ := heads_of_joins joined
  -- a word ends where the next text begins with no name; a sign begins no entry
  rcases lexeme.word_or_sign with ⟨_, edge, _⟩ | ⟨_, signs⟩
  · have stop := ends edge
    cases text : next.text with
    | nil =>
      rw [text] at second
      cases second
    | cons c rest =>
      rw [text] at second stop
      have name : isNameChar c = true := second
      simp [endsWord, name] at stop
  · cases text : piece.text with
    | nil =>
      rw [text] at first
      cases first
    | cons c rest =>
      rw [text] at first signs
      have name : isNameChar c = true := first
      rw [(signs c (.head rest)).1] at name
      cases name

/-- One pass over a normal text leaves whole pieces, of which none joins the next. -/
theorem cleanly_onePass {boundary : Bool} {text : Text}
    (start : boundary = true ∨ endsWord text = true) (normal : Text.Normal text) :
    Cleanly text ((onePass sweeps boundary text).flatMap flagLeftover) := by
  -- By the text's length: behind the first piece met stands a shorter text.
  induction length : text.length using Nat.strongRecOn generalizing text boundary with
  | ind _ ih =>
    subst length
    rcases met : seek (frontPiece? sweeps) boundary text with _ | ⟨before, piece, after⟩
    · rw [onePass_of_none met]
      rcases @flagLeftover_fragment boundary text [] normal (by simpa using seek_eq_none.mp met)
        with ⟨_, none⟩ | ⟨comment, literal, oneLine, one⟩
      · rw [none]
        exact ⟨nofun, .nil, nofun⟩
      · rw [one]
        refine ⟨?_, .singleton _, ?_⟩
        · intro piece member
          rw [List.mem_singleton.mp member]
          exact .literal literal oneLine
        · rintro piece _ _ _ next ⟨⟩
          exact (not_joins_of_literal literal piece.text).2
    · obtain ⟨here, rfl, solid, found, absent⟩ := seek_eq_some.mp met
      have known : piece.kind ≠ .raw := kind_ne_raw found
      rw [frontPiece?_of_met start rfl absent] at found
      obtain ⟨filled, rfl⟩ := frontPiece?_append found
      have lexeme := isLexeme_of_frontPiece? found
      have shorter : after.length < (before ++ (piece.text ++ after)).length := by
        have taken := List.length_pos_iff.mpr filled
        simp only [List.length_append]
        omega
      have ends := endsWord_of_frontPiece? found
      have behind := ih _ shorter (starts_behind found) normal.back.back rfl
      rw [onePass_of_some met, List.flatMap_append, List.flatMap_cons, flagLeftover, if_neg known]
      have whole := List.forall_mem_cons.mpr ⟨lexeme.whole normal, behind.whole⟩
      have apart := List.isChain_cons.mpr
        ⟨behind.front piece lexeme (free_of_frontPiece? found) ends, behind.apart⟩
      rcases flagLeftover_fragment normal.front absent with
        ⟨blank, none⟩ | ⟨comment, literal, oneLine, one⟩
      · rw [none]
        refine ⟨whole, apart, ?_⟩
        rintro first lexeme' free ends' next ⟨⟩
        -- At most one blank stands in front of the piece.
        rcases normal.eq_blank blank with rfl | rfl
        · exact not_joins_of_touch lexeme' ends'
        · exact not_joins_of_free free filled ends
      · rw [one]
        refine ⟨List.forall_mem_cons.mpr ⟨.literal literal oneLine, whole⟩, ?_, ?_⟩
        · exact List.isChain_cons.mpr
            ⟨fun next _ => (not_joins_of_literal literal next.text).1, apart⟩
        · rintro first _ _ _ next ⟨⟩
          exact (not_joins_of_literal literal first.text).2

/-- A literal span is not raw. -/
theorem Piece.IsLiteral.kind_ne_raw {piece : Piece} (literal : piece.IsLiteral) :
    piece.kind ≠ .raw := by
  -- Each form of literal gives its own kind, and raw is none of them.
  obtain ⟨opening, closing, encloses, _⟩ := literal?_encloses literal
  intro raw
  rw [raw] at encloses
  cases encloses

/-- A whole piece is of a lexical kind, and it is not raw. -/
theorem Piece.Whole.lexical {piece : Piece} (whole : piece.Whole) :
    piece.kind.isLexical = true ∧ piece.kind ≠ .raw := by
  -- a literal has the kind of its opening, a lexeme that of its sweep
  cases whole with
  | literal literal _ =>
    refine ⟨?_, literal.kind_ne_raw⟩
    obtain ⟨opening, closing, encloses, _⟩ := literal?_encloses literal
    generalize piece.kind = kind at encloses
    cases encloses with
    | text => rfl
    | name => rfl
    | braces => rfl
    | stars => rfl
  | lexeme lexeme _ =>
    have all : ∀ sweep ∈ sweeps, sweep.kind.isLexical = true := by decide
    obtain ⟨sweep, member, same, _⟩ := lexeme.sweep
    exact ⟨same ▸ all sweep member, kind_ne_raw lexeme⟩

/-- What a text is cut into: literal spans on one line and raw pieces, no two of them in a row. -/
structure Scanned (found : List Piece) : Prop where
  /-- What is not raw is a literal span on one line. -/
  spans : ∀ piece ∈ found, piece.kind ≠ .raw →
    piece.IsLiteral ∧ ∀ c ∈ piece.text, isLineBreak c = false
  /-- A raw piece reaches up to the next span. -/
  apart : found.IsChain fun piece next => piece.kind = .raw → next.kind ≠ .raw

/-- One more raw character leaves literal spans and raw pieces. -/
theorem scanned_pushRaw {found : List Piece} (scanned : Scanned found) (c : Char) :
    Scanned (pushRaw c found) := by
  have spans := scanned.spans
  have apart := scanned.apart
  unfold pushRaw
  -- either the raw text in front grows, or raw text comes before what is none
  split
  · rename_i text rest
    refine ⟨?_, ?_⟩
    · intro piece member known
      rcases List.mem_cons.mp member with rfl | member
      · exact absurd rfl known
      · exact spans piece (.tail _ member) known
    · obtain ⟨next, others⟩ := List.isChain_cons.mp apart
      exact List.isChain_cons.mpr ⟨next, others⟩
  · rename_i other
    refine ⟨?_, List.isChain_cons.mpr ⟨?_, apart⟩⟩
    · intro piece member known
      rcases List.mem_cons.mp member with rfl | member
      · exact absurd rfl known
      · exact spans piece member known
    · intro next front _ raw
      obtain ⟨kind, text⟩ := next
      cases raw
      obtain ⟨rest, rfl⟩ := List.head?_eq_some_iff.mp front
      exact other text rest rfl

/-- A text without line breaks is cut into literal spans and raw pieces between them. -/
theorem scanned_scan {text : Text} (oneLine : ∀ c ∈ text, isLineBreak c = false) :
    Scanned (scan text) := by
  -- along the scan: a literal keeps its one line, and raw text grows by a character
  fun_induction scan text with
  | case1 => exact ⟨nofun, .nil⟩
  | case2 c rest piece after found ih =>
    have split := literal?_append found
    have literal := isLiteral_of_literal? found
    have behind := ih fun d member => oneLine d (by simp [← split, member])
    refine ⟨?_, List.isChain_cons.mpr ⟨?_, behind.apart⟩⟩
    · intro other member known
      rcases List.mem_cons.mp member with rfl | member
      · exact ⟨literal, fun d among => oneLine d (by simp [← split, among])⟩
      · exact behind.spans other member known
    · exact fun _ _ raw => absurd raw literal.kind_ne_raw
  | case3 c rest absent ih =>
    exact scanned_pushRaw (ih fun d member => oneLine d (.tail c member)) c

/-- A text whose line breaks are drawn together is cut into literal spans and raw pieces. -/
theorem scanned_squeeze (sql : Text) : Scanned (scan (sql.squeeze isLineBreak)) := by
  -- What squeezing puts in place of line breaks is a space.
  refine scanned_scan fun c member => ?_
  rcases mem_squeezeFrom member with rfl | ⟨_, other⟩
  · rfl
  · exact other

/-- The pieces of a text, with every fragment that no sweep could classify turned into a comment. -/
def flaggedPieces (sql : Text) : List Piece :=
  (pieces sql).flatMap flagLeftover

/-- What one piece between literal spans comes to. -/
def flaggedPiece (piece : Piece) : List Piece :=
  (lexPiece piece.normalize).flatMap flagLeftover

/-- Each raw piece and each literal span of a text comes to pieces of its own. -/
theorem flaggedPieces_eq (sql : Text) :
    flaggedPieces sql = (scan (sql.squeeze isLineBreak)).flatMap flaggedPiece := by
  -- The pieces are flagged one by one, and so it may be done span by span.
  rw [flaggedPieces, pieces_eq, List.flatMap_assoc, List.flatMap_map]
  rfl

/-- A literal span comes to itself. -/
theorem flaggedPiece_of_known {piece : Piece} (known : piece.kind ≠ .raw) :
    flaggedPiece piece = [piece] := by
  simp [flaggedPiece, lexPiece_of_known, known, flagLeftover]

/-- A raw piece comes to what one pass finds in it once it is normal. -/
theorem flaggedPiece_of_raw (text : Text) :
    flaggedPiece ⟨.raw, text⟩ =
      (onePass sweeps true (text.squeeze isBlank).upper).flatMap flagLeftover := by
  -- Raw text is normalized and swept before its leftovers are flagged.
  rw [flaggedPiece, lexPiece_of_raw rfl]

/-- The pieces of a text are whole, and none joins the next. -/
theorem flaggedPieces_whole (sql : Text) :
    (∀ piece ∈ flaggedPieces sql, piece.Whole) ∧
      (flaggedPieces sql).IsChain fun piece next => joins piece.text next.text = false := by
  -- The scan is gone through piece by piece, with what the next one may be.
  have scanned := scanned_squeeze sql
  rw [flaggedPieces_eq]
  generalize scan (sql.squeeze isLineBreak) = found at scanned
  induction found with
  | nil => exact ⟨nofun, .nil⟩
  | cons piece found ih =>
    obtain ⟨next, others⟩ := List.isChain_cons.mp scanned.apart
    obtain ⟨whole, apart⟩ := ih ⟨fun other member => scanned.spans other (.tail _ member), others⟩
    rw [List.flatMap_cons]
    by_cases raw : piece.kind = .raw
    · -- What follows a raw piece, if anything does, is a literal span.
      obtain ⟨kind, text⟩ := piece
      cases raw
      rw [flaggedPiece_of_raw]
      have cut := cleanly_onePass (.inl rfl) (normal_upper_squeeze text)
      refine ⟨List.forall_mem_append.mpr ⟨cut.whole, whole⟩, List.isChain_append.mpr
        ⟨cut.apart, apart, ?_⟩⟩
      intro last _ first front
      cases found with
      | nil => cases front
      | cons span found =>
        have known := next span rfl rfl
        rw [List.flatMap_cons, flaggedPiece_of_known known] at front
        cases front
        exact (not_joins_of_literal (scanned.spans first (by simp) known).1 last.text).2
    · obtain ⟨literal, oneLine⟩ := scanned.spans piece (.head found) raw
      rw [flaggedPiece_of_known raw]
      refine ⟨List.forall_mem_cons.mpr ⟨.literal literal oneLine, whole⟩, List.isChain_cons.mpr
        ⟨fun first _ => (not_joins_of_literal literal first.text).1, apart⟩⟩

end SqlLayout
