import SqlLayout.Proofs.Lexing.Attach

/-! Respelling: whole pieces written one behind the other are read as these pieces again. -/

namespace SqlLayout

/-- A text that holds words in order, each with or without blanks in front of it. -/
inductive Written : List (Bool × Text) → Text → Prop where
  /-- Blanks may stand behind the last word. -/
  | done {text : Text} : Text.Blank text → Written [] text
  /-- Blanks stand in front of a word exactly when it is set off. -/
  | word {spaced : Bool} {word gap text : Text} {rest : List (Bool × Text)} :
    Text.Blank gap → (spaced = true ↔ gap ≠ []) → Written rest text →
    Written ((spaced, word) :: rest) (gap ++ (word ++ text))

/-- Drawing line breaks together leaves the words of a text, and which of them are set off. -/
theorem Written.squeeze {items : List (Bool × Text)} {text : Text} (written : Written items text)
    (solid : ∀ item ∈ items, item.2 ≠ [] ∧ ∀ c ∈ item.2, isLineBreak c = false) :
    Written items (text.squeeze isLineBreak) := by
  -- A word has no line break, so that squeezing works on the gaps between the words alone.
  have blank : ∀ {gap : Text}, Text.Blank gap → Text.Blank (gap.squeeze isLineBreak) := by
    intro gap blank c member
    rcases mem_squeezeFrom member with rfl | ⟨among, _⟩
    · rfl
    · exact blank c among
  induction written with
  | done blanks => exact .done (blank blanks)
  | @word spaced word gap text rest blanks set _ ih =>
    obtain ⟨⟨filled, oneLine⟩, others⟩ := List.forall_mem_cons.mp solid
    have last : ∀ inside, word.getLast?.elim inside isLineBreak = false := by
      intro inside
      rw [List.getLast?_eq_some_getLast filled]
      exact oneLine _ (List.getLast_mem filled)
    have split : Text.squeeze isLineBreak (gap ++ (word ++ text)) =
        gap.squeeze isLineBreak ++ (word ++ text.squeeze isLineBreak) := by
      rw [Text.squeeze, squeezeFrom_append, squeezeFrom_append, squeezeFrom_of_solid oneLine, last]
      rfl
    rw [split]
    refine .word (blank blanks) (set.trans ?_) (ih others)
    -- A run of line breaks leaves one blank, and so no gap is closed.
    cases gap with
    | nil => exact Iff.rfl
    | cons c gap =>
      refine iff_of_true (List.cons_ne_nil c gap) ?_
      rcases line : isLineBreak c with _ | _
      · simp [Text.squeeze, Text.squeezeFrom, line]
      · simp [Text.squeeze, Text.squeezeFrom, line]

/-- A raw text as the piece it makes up, if there is any of it. -/
def rawPiece (text : Text) : List Piece :=
  if text = [] then [] else [⟨.raw, text⟩]

/-- Raw characters go in front of the raw piece that follows them. -/
theorem foldr_pushRaw {passed raw : Text} {others : List Piece}
    (known : ∀ piece ∈ others.head?, piece.kind ≠ .raw) :
    passed.foldr pushRaw (rawPiece raw ++ others) = rawPiece (passed ++ raw) ++ others := by
  -- from the last character passed to the first, each joins the raw piece being built
  induction passed with
  | nil => rfl
  | cons c passed ih =>
    rw [List.foldr_cons, ih, List.cons_append]
    generalize passed ++ raw = text
    cases text with
    | cons d text => rfl
    | nil =>
      cases others with
      | nil => rfl
      | cons piece others =>
        have other := known piece rfl
        rw [rawPiece, if_pos rfl, List.nil_append]
        unfold pushRaw
        split
        · rename_i same
          cases same
          exact absurd rfl other
        · rfl

/-- Pieces with one more raw character have one more character. -/
theorem flatMap_pushRaw (c : Char) (found : List Piece) :
    (pushRaw c found).flatMap Piece.text = c :: found.flatMap Piece.text := by
  -- The character goes in front of the first piece or becomes one.
  unfold pushRaw
  split
  · rfl
  · rfl

/-- A text in front of which no literal span begins is raw. -/
theorem scan_append {passed text : Text}
    (plain : ∀ first second, passed = first ++ second → second ≠ [] →
      literal? (second ++ text) = none) :
    scan (passed ++ text) = passed.foldr pushRaw (scan text) := by
  induction passed with
  | nil => rfl
  -- no literal begins within the text passed, so the scan goes through it one by one
  | cons c passed ih =>
    have here := plain [] (c :: passed) rfl nofun
    rw [List.cons_append] at here ⊢
    rw [scan, List.foldr_cons, ← ih fun first second split =>
      plain (c :: first) second (by rw [split]; rfl)]
    split
    · rename_i found
      rw [here] at found
      cases found
    · rfl

/-- No literal span begins with a character that opens none. -/
theorem literal?_of_plain {c : Char} {rest : Text} (plain : c ∉ ['\'', '"', '\x7b'])
    (slash : c = '/' → rest.head? ≠ some '*') : literal? (c :: rest) = none := by
  -- The character is neither of the two quotes, no opening brace and no slash before a star.
  unfold literal?
  split
  case h_5 => rfl
  all_goals simp_all

/-- No literal span begins with a blank. -/
theorem literal?_of_blank {c : Char} {rest : Text} (blank : isBlank c = true) :
    literal? (c :: rest) = none := by
  -- no blank opens a literal
  refine literal?_of_plain ?_ ?_
  · intro member
    have all : ∀ c ∈ ['\'', '"', '\x7b'], isBlank c = false := by decide
    rw [all c member] at blank
    cases blank
  · rintro rfl
    cases blank

/-- No literal span begins with a name character. -/
theorem literal?_of_name {c : Char} (name : isNameChar c = true) (rest : Text) :
    literal? (c :: rest) = none := by
  -- None of the characters that open a literal is a name character.
  refine literal?_of_plain ?_ ?_
  · intro member
    simp only [List.mem_cons, List.not_mem_nil, or_false] at member
    rcases member with rfl | rfl | rfl
    · cases name
    · cases name
    · cases name
  · rintro rfl
    cases name

/-- A run of name characters is raw. -/
theorem scan_named {word : Text} (named : ∀ c ∈ word, isNameChar c = true) (text : Text) :
    scan (word ++ text) = word.foldr pushRaw (scan text) := by
  -- At no character of the word does a literal begin.
  refine scan_append ?_
  rintro first (_ | ⟨c, second⟩) rfl filled
  · exact absurd rfl filled
  · exact literal?_of_name (named c (by simp)) _

/-- A character at which no literal span begins is raw. -/
theorem scan_of_plain {c : Char} {text : Text} (plain : literal? (c :: text) = none) :
    scan (c :: text) = pushRaw c (scan text) := by
  -- The scan goes on behind the character.
  rw [scan]
  split
  · rename_i found
    rw [plain] at found
    cases found
  · rfl

/-- No literal span begins inside a lexeme that no star follows. -/
theorem Piece.IsLexeme.plain {piece : Piece} {text : Text} (lexeme : piece.IsLexeme)
    (slash : piece.text = ['/'] → text.head? ≠ some '*') :
    ∀ first second, piece.text = first ++ second → second ≠ [] →
      literal? (second ++ text) = none := by
  -- a character of a listed word opens none but the slash, which is then the whole word
  intro first second split filled
  obtain ⟨c, rest, rfl⟩ := List.exists_cons_of_ne_nil filled
  have member : c ∈ piece.text := by simp [split]
  rcases lexeme.listed_or_named with listed | named
  · have all : ∀ word ∈ lexicon, ∀ c ∈ word,
        c ∉ ['\'', '"', '\x7b'] ∧ (c = '/' → word = ['/']) := by decide +kernel
    obtain ⟨plain, alone⟩ := all piece.text listed c member
    refine literal?_of_plain plain ?_
    rintro rfl
    have whole := alone rfl
    rw [whole] at split
    obtain ⟨rfl, _, rfl⟩ : first = [] ∧ '/' = '/' ∧ rest = [] := by
      cases first with
      | nil => simpa using split.symm
      | cons d first => simp at split
    exact slash whole
  · have all : ∀ c ∈ ['\'', '"', '\x7b', '/'], isNameChar c = false := by decide
    -- and a name holds none of the four openings
    have name := named c member
    refine literal?_of_plain ?_ ?_
    · intro among
      rw [all c (List.mem_append_left ['/'] among)] at name
      cases name
    · rintro rfl
      cases name

/-- What normal text between literal spans comes to. -/
def normalPieces (text : Text) : List Piece :=
  (onePass sweeps true text).flatMap flagLeftover

/-- Raw text as it is cut. -/
def Text.normalize (raw : Text) : Text :=
  (raw.squeeze isBlank).upper

/-- A raw piece comes to what its normal text does, and no raw text to nothing. -/
theorem flaggedPiece_rawPiece (raw : Text) :
    (rawPiece raw).flatMap flaggedPiece = normalPieces raw.normalize := by
  -- An empty raw text is no piece, and comes to no pieces.
  unfold rawPiece
  split
  · rename_i bare
    rw [bare, normalPieces, onePass_of_none rfl]
    rfl
  · rw [List.flatMap_singleton, flaggedPiece_of_raw]
    rfl

/-- A text that begins with no word is cut the same whether one may begin there or not. -/
theorem onePass_of_endsWord {boundary : Bool} {text : Text} (ends : endsWord text = true) :
    onePass sweeps boundary text = onePass sweeps true text := by
  -- where no name begins the text, it does not matter what stands before it
  have same : seek (frontPiece? sweeps) boundary text = seek (frontPiece? sweeps) true text := by
    cases text with
    | nil => rfl
    | cons c rest => rw [seek, seek, frontPiece?_of_endsWord ends]
  rcases met : seek (frontPiece? sweeps) true text with _ | ⟨before, piece, after⟩
  · rw [onePass_of_none met, onePass_of_none (same.trans met)]
  · rw [onePass_of_some met, onePass_of_some (same.trans met)]

/-- A blank in front of a text leaves what it comes to. -/
theorem normalPieces_blank (text : Text) : normalPieces (' ' :: text) = normalPieces text := by
  -- the blank is no match, and the fragment in front of the first one drops it
  have absent : frontPiece? sweeps true (' ' :: text) = none :=
    frontPiece?_eq_none.mpr fun sweep member =>
      (Pattern.tidy (wellSpelled_sweeps member)).blank rfl
  have skip : seek (frontPiece? sweeps) true (' ' :: text) =
      (seek (frontPiece? sweeps) true text).map
        fun (before, found) => (' ' :: before, found) := by
    rw [seek, absent]
    rfl
  unfold normalPieces
  rcases met : seek (frontPiece? sweeps) true text with _ | ⟨before, piece, after⟩
  · rw [met] at skip
    rw [onePass_of_none skip, onePass_of_none met, fragment_cons rfl]
  · rw [met] at skip
    rw [onePass_of_some skip, onePass_of_some met, fragment_cons rfl]

/-- A lexeme in front of a text that does not run on from it comes first. -/
theorem Piece.IsLexeme.normalPieces_append {piece : Piece} {text : Text} (lexeme : piece.IsLexeme)
    (ends : wordEdge true piece.text = false → endsWord text = true)
    (free : Free piece.text text) :
    normalPieces (piece.text ++ text) = piece :: normalPieces text := by
  have found := lexeme.again ends free
  -- the piece is met at the front of its own text, as it is on its own
  have met : seek (frontPiece? sweeps) true (piece.text ++ text) = some ([], piece, text) := by
    refine seek_eq_some.mpr ⟨_, rfl, ?_, found, ?_⟩
    · simp [(frontPiece?_append lexeme).1]
    · intro first second split filled
      exact absurd (List.append_eq_nil_iff.mp split.symm).2 filled
  have behind : onePass sweeps (wordEdge true piece.text) text = onePass sweeps true text := by
    rcases edge : wordEdge true piece.text with _ | _
    · exact onePass_of_endsWord (ends edge)
    · rfl
  unfold normalPieces
  rw [onePass_of_some met, behind, fragment_blank (List.forall_mem_nil _), List.nil_append,
    List.flatMap_cons, flagLeftover, if_neg (kind_ne_raw lexeme)]
  rfl

/-- Upper-casing goes character by character. -/
theorem upper_append (front back : Text) : (front ++ back).upper = front.upper ++ back.upper :=
  -- Every character is put in upper case on its own.
  List.flatMap_append

/-- A lexeme in upper case begins and ends with no blank, and normalizing leaves it as it is. -/
theorem Piece.IsLexeme.normalize_append {piece : Piece} {gap raw : Text} (lexeme : piece.IsLexeme)
    (capital : piece.text.upper = piece.text) (blank : Text.Blank gap) :
    Text.normalize (gap ++ (piece.text ++ raw)) =
      (if gap.isEmpty then [] else [' ']) ++ (piece.text ++ raw.normalize) := by
  have filled := (frontPiece?_append lexeme).1
  -- a lexeme has no blanks to squeeze but single ones, and none at its edges
  have spaced : piece.text.squeeze isBlank = piece.text := by
    rcases lexeme.listed_or_named with listed | named
    · exact (normal_of_listed listed).1
    · exact squeezeFrom_of_solid fun c member => isBlank_of_isNameChar (named c member)
  have front : ∀ c ∈ (piece.text ++ raw).head?, isBlank c = false := by
    have first := lexeme.not_blank.1
    obtain ⟨d, rest, split⟩ := List.exists_cons_of_ne_nil filled
    rw [split] at first ⊢
    exact first
  have last : piece.text.getLast?.elim false isBlank = false := by
    rw [List.getLast?_eq_some_getLast filled]
    exact lexeme.not_blank.2 _ (List.getLast?_eq_some_getLast filled)
  have same : Text.squeeze isBlank (gap ++ (piece.text ++ raw)) =
      (if gap.isEmpty then [] else [' ']) ++ (piece.text ++ raw.squeeze isBlank) := by
    rw [Text.squeeze, squeezeFrom_append, squeezeFrom_of_head front, squeezeFrom_of_gaps blank,
      Bool.false_or, Text.squeeze, squeezeFrom_append, last]
    change _ ++ (piece.text.squeeze isBlank ++ _) = _
    rw [spaced]
    rfl
  rw [Text.normalize, same, upper_append, upper_append, capital]
  split
  · rfl
  · rfl

/-- Pieces to be written, each with whether it is set off from what stands in front of it. -/
abbrev Spelling := List (Bool × Piece)

/-- Whether a piece may follow another, set off from it or not. -/
def MayFollow (item next : Bool × Piece) : Prop :=
  if next.1 then joins item.2.text next.2.text = false
  else ∀ c ∈ next.2.text.head?, mayTouch item.2.text c = true

/-- A text that begins as the normal text between literal spans does in front of pieces. -/
def Leads (items : Spelling) (text : Text) : Prop :=
  match items with
  | [] => text = [] ∨ text = [' ']
  | (spaced, piece) :: _ => ∃ rest, text = (if spaced then [' '] else []) ++ rest ∧
      (rest = [] ∨ ∃ more, rest = piece.text ++ more ∧
        (wordEdge true piece.text = false → endsWord more = true))

/-- A whole piece is not empty, and begins and ends with no blank. -/
theorem Piece.Whole.edges {piece : Piece} (whole : piece.Whole) :
    piece.text ≠ [] ∧ (∀ c ∈ piece.text.head?, isBlank c = false) ∧
      ∀ c ∈ piece.text.getLast?, isBlank c = false := by
  cases whole with
  -- a literal has its quotes or brackets for edges; a lexeme has none that are blank
  | literal literal _ =>
    obtain ⟨⟨c, first, opens⟩, d, last, closes⟩ := literal.edges
    have openings : ∀ c ∈ ['\'', '"', '\x7b', '/'], isBlank c = false := by decide
    have closings : ∀ c ∈ ['\'', '"', '\x7d', '/'], isBlank c = false := by decide
    refine ⟨literal?_text_ne_nil literal, ?_, ?_⟩
    · intro e front
      cases first.symm.trans front
      exact openings c opens
    · intro e back
      cases last.symm.trans back
      exact closings d closes
  | lexeme lexeme _ => exact ⟨(frontPiece?_append lexeme).1, lexeme.not_blank⟩

/-- A whole piece stands on one line. -/
theorem Piece.Whole.oneLine {piece : Piece} (whole : piece.Whole) :
    ∀ c ∈ piece.text, isLineBreak c = false := by
  cases whole with
  | literal _ oneLine => exact oneLine
  | lexeme lexeme _ =>
    -- listed words were checked; a name has no blank at all
    rcases lexeme.listed_or_named with listed | named
    · exact (normal_of_listed listed).2.2
    · intro c member
      refine Bool.eq_false_iff.mpr fun line => ?_
      have blank := isBlank_of_isLineBreak line
      rw [isBlank_of_isNameChar (named c member)] at blank
      cases blank

/-- No lexeme is read on into what may follow it. -/
theorem Piece.IsLexeme.free_of_leads {spaced : Bool} {piece : Piece} {items : Spelling}
    {text : Text} (lexeme : piece.IsLexeme) (leads : Leads items text)
    (whole : ∀ item ∈ items, item.2.Whole)
    (follows : ∀ next ∈ items.head?, MayFollow (spaced, piece) next) :
    Free piece.text text ∧ (wordEdge true piece.text = false → endsWord text = true) := by
  have filled := (frontPiece?_append lexeme).1
  have blank : ∀ {rest : Text}, endsWord (' ' :: rest) = true := rfl
  -- by what comes next: nothing, a piece set apart by a blank, or one that touches
  rcases items with _ | ⟨⟨set, next⟩, items⟩
  · rcases leads with rfl | rfl
    · exact ⟨free_nil _, fun _ => rfl⟩
    · exact ⟨free_blank filled (.inl rfl), fun _ => blank⟩
  · have solid : next.text ≠ [] := (whole _ (.head items)).edges.1
    have may := follows _ rfl
    obtain ⟨rest, rfl, lead⟩ := leads
    cases set with
    | true =>
      refine ⟨free_blank filled ?_, fun _ => blank⟩
      rcases lead with rfl | ⟨more, rfl, ends⟩
      · exact .inl rfl
      · exact .inr ⟨next.text, more, rfl, solid, ends, may⟩
    | false =>
      rcases lead with rfl | ⟨more, rfl, ends⟩
      · exact ⟨free_nil _, fun _ => rfl⟩
      · obtain ⟨c, others, split⟩ := List.exists_cons_of_ne_nil solid
        have touch : mayTouch piece.text c = true := may c (by simp [split])
        simp only [split]
        exact lexeme.touch touch (others ++ more)

/-- A text begins with a blank, if with anything, or with the first word if that is not set off. -/
theorem Written.begins {items : Spelling} {text : Text}
    (written : Written (items.map (Prod.map id Piece.text)) text) :
    (∀ c ∈ text.head?, isBlank c = true) ∨
      ∃ next ∈ items.head?, next.1 = false ∧ next.2.text <+: text := by
  -- the next word stands behind a gap, or at once behind this one when that gap is empty
  rcases items with _ | ⟨⟨set, next⟩, items⟩
  · cases written with
    | done blank => exact .inl fun c front => blank c (List.mem_of_head? front)
  · cases written with
    | @word _ _ gap text _ blank spaced _ =>
      cases gap with
      | cons d gap =>
        left
        rintro _ ⟨⟩
        exact blank d (.head gap)
      | nil =>
        have touching : set = false := by simpa using spaced
        exact .inr ⟨_, rfl, touching, List.prefix_append _ _⟩

/-- What stands behind a word in a text begins with a blank, or may touch the word. -/
theorem Written.head {word : Text} {items : Spelling} {text : Text}
    (written : Written (items.map (Prod.map id Piece.text)) text)
    (solid : ∀ item ∈ items, item.2.text ≠ [])
    (touch : ∀ next ∈ items.head?, next.1 = false →
      ∀ c ∈ next.2.text.head?, mayTouch word c = true) :
    ∀ c ∈ text.head?, isBlank c = true ∨ mayTouch word c = true := by
  -- What is written begins with a blank, or with the first word if that stands bare.
  intro c front
  rcases written.begins with blank | ⟨next, first, bare, more, rfl⟩
  · exact .inl (blank c front)
  · rw [List.head?_append_of_ne_nil _ (solid next (List.mem_of_head? first))] at front
    exact .inr (touch next first bare c front)

/-- A literal span that stands in a text is read again there. -/
theorem Piece.IsLiteral.again {piece : Piece} {text : Text} (literal : piece.IsLiteral)
    (head : ∀ c ∈ text.head?, isBlank c = true ∨ mayTouch piece.text c = true) :
    literal? (piece.text ++ text) = some (piece, text) := by
  -- Only a quoted span can be read further, by the same quote right behind it.
  refine literal?_again literal ?_
  by_cases comment : piece.kind = .comment
  · exact .inl comment
  · refine .inr fun same => ?_
    obtain ⟨opening, closing, encloses, ⟨rest, front⟩, _⟩ := literal?_encloses literal
    obtain ⟨kind, word⟩ := piece
    change opening ++ rest = word at front
    subst front
    -- Neither quote is a blank or one of the characters that may touch a span.
    cases encloses with
    | text =>
      rcases head '\'' same with blank | touch
      · cases blank
      · simp [mayTouch] at touch
    | name =>
      rcases head '"' same with blank | touch
      · cases blank
      · simp [mayTouch] at touch
    | braces => exact comment rfl
    | stars => exact comment rfl

/--
A text that comes to pieces.

It is cut into raw text and what follows that, and the raw text begins as it has to in front of them.
-/
def ReadsAs (text : Text) (items : Spelling) : Prop :=
  ∃ raw others, scan text = rawPiece raw ++ others ∧
    (∀ piece ∈ others.head?, piece.kind ≠ .raw) ∧
    normalPieces raw.normalize ++ others.flatMap flaggedPiece = items.map Prod.snd ∧
    Leads items raw.normalize

/-- A text that begins with a literal span is cut behind it. -/
theorem scan_of_literal? {text after : Text} {piece : Piece}
    (found : literal? text = some (piece, after)) : scan text = piece :: scan after := by
  -- The scan tries for a literal first, and takes the one that it finds.
  cases text with
  | nil => cases found
  | cons c rest =>
    rw [scan]
    split
    · rename_i again
      rw [found] at again
      cases again
      rfl
    · rename_i absent
      rw [found] at absent
      cases absent

/-- Blanks in front of a text are raw. -/
theorem scan_blanks {gap text : Text} (blank : Text.Blank gap) :
    scan (gap ++ text) = gap.foldr pushRaw (scan text) := by
  -- At no blank does a literal begin.
  refine scan_append ?_
  rintro first (_ | ⟨c, second⟩) rfl filled
  · exact absurd rfl filled
  · exact literal?_of_blank (blank c (by simp))

/-- Blanks alone are normalized to one blank at most. -/
theorem normalize_blanks {gap : Text} (blank : Text.Blank gap) :
    gap.normalize = if gap.isEmpty then [] else [' '] := by
  -- A run of blanks is squeezed to one space, which is its own upper case.
  rw [Text.normalize, Text.squeeze, squeezeFrom_of_gaps blank, Bool.false_or]
  split
  · rfl
  · rfl

/-- Nothing is found in one blank at most. -/
theorem normalPieces_of_gap (bare : Bool) :
    normalPieces (if bare then [] else [' ']) = [] := by
  -- A single space is dropped, and of nothing there are no pieces.
  have none : normalPieces [] = [] := by
    rw [normalPieces, onePass_of_none rfl]
    rfl
  cases bare with
  | true => exact none
  | false => exact (normalPieces_blank []).trans none

/-- Blanks behind the last piece come to nothing. -/
theorem readsAs_nil {text : Text} (blank : Text.Blank text) : ReadsAs text [] := by
  -- a text of blanks is one gap, which holds no piece
  refine ⟨text, [], ?_, nofun, ?_, ?_⟩
  · have gap := @scan_blanks text [] blank
    have raw := @foldr_pushRaw text [] [] nofun
    rw [List.append_nil, scan] at gap
    rw [gap]
    simpa [show rawPiece [] = [] from rfl] using raw
  · rw [normalize_blanks blank, normalPieces_of_gap]
    rfl
  · rw [normalize_blanks blank]
    cases text with
    | nil => exact .inl rfl
    | cons c text => exact .inr rfl

/-- A literal span in front of a text comes first. -/
theorem ReadsAs.literal {spaced : Bool} {piece : Piece} {gap text : Text} {items : Spelling}
    (reads : ReadsAs text items) (literal : piece.IsLiteral) (blank : Text.Blank gap)
    (set : spaced = true ↔ gap ≠ [])
    (head : ∀ c ∈ text.head?, isBlank c = true ∨ mayTouch piece.text c = true) :
    ReadsAs (gap ++ (piece.text ++ text)) ((spaced, piece) :: items) := by
  -- the scan stops for the literal, so the raw text before it is the gap alone
  obtain ⟨raw, others, scanned, _, found, _⟩ := reads
  have known := literal.kind_ne_raw
  refine ⟨gap, piece :: scan text, ?_, ?_, ?_, [], ?_, .inl rfl⟩
  · have raw := @foldr_pushRaw gap [] (piece :: scan text) (by simpa using known)
    rw [List.append_nil] at raw
    rw [scan_blanks blank, scan_of_literal? (literal.again head), ← raw]
    rfl
  · simpa using known
  · rw [normalize_blanks blank, normalPieces_of_gap, List.nil_append, List.flatMap_cons,
      flaggedPiece_of_known known, scanned, List.flatMap_append, flaggedPiece_rawPiece, found]
    rfl
  · rw [normalize_blanks blank, List.append_nil]
    cases gap <;> simp_all

/-- A lexeme in front of a text comes first. -/
theorem ReadsAs.lexeme {spaced : Bool} {piece : Piece} {gap text : Text} {items : Spelling}
    (reads : ReadsAs text items) (lexeme : piece.IsLexeme)
    (capital : piece.text.upper = piece.text) (blank : Text.Blank gap)
    (set : spaced = true ↔ gap ≠ [])
    (head : ∀ c ∈ text.head?, isBlank c = true ∨ mayTouch piece.text c = true)
    (whole : ∀ item ∈ items, item.2.Whole)
    (follows : ∀ next ∈ items.head?, MayFollow (spaced, piece) next) :
    ReadsAs (gap ++ (piece.text ++ text)) ((spaced, piece) :: items) := by
  -- the lexeme joins the raw text behind it, which is cut after the lexeme as before
  obtain ⟨raw, others, scanned, known, found, leads⟩ := reads
  obtain ⟨free, ends⟩ := lexeme.free_of_leads leads whole follows
  have normal := @Piece.IsLexeme.normalize_append piece gap raw lexeme capital blank
  have front : (if gap.isEmpty then [] else [' ']) = if spaced then [' '] else ([] : Text) := by
    cases gap <;> simp_all
  refine ⟨gap ++ (piece.text ++ raw), others, ?_, known, ?_, piece.text ++ raw.normalize, ?_,
    .inr ⟨raw.normalize, rfl, ends⟩⟩
  · -- the slash opens a comment only before a star, and a star may not touch it
    have plain : piece.text = ['/'] → text.head? ≠ some '*' := by
      intro slash star
      rcases head '*' star with blank | touch
      · cases blank
      · rw [slash] at touch
        cases touch
    rw [scan_blanks blank, scan_append (lexeme.plain plain), scanned, foldr_pushRaw known,
      foldr_pushRaw known]
  · have skip : normalPieces ((if gap.isEmpty then [] else [' ']) ++
        (piece.text ++ raw.normalize)) = normalPieces (piece.text ++ raw.normalize) := by
      split
      · rfl
      · exact normalPieces_blank _
    rw [normal, skip, lexeme.normalPieces_append ends free, List.cons_append, found]
    rfl
  · rw [normal, front]

/-- A text that spells whole pieces which may follow each other comes to these pieces. -/
theorem Written.readsAs {items : Spelling} {text : Text}
    (written : Written (items.map (Prod.map id Piece.text)) text)
    (whole : ∀ item ∈ items, item.2.Whole) (follows : items.IsChain MayFollow) :
    ReadsAs text items := by
  -- piece by piece from the last: each is read in front of what follows it
  induction items generalizing text with
  | nil =>
    cases written with
    | done blank => exact readsAs_nil blank
  | cons item items ih =>
    obtain ⟨spaced, piece⟩ := item
    obtain ⟨first, others⟩ := List.forall_mem_cons.mp whole
    obtain ⟨next, chain⟩ := List.isChain_cons.mp follows
    cases written with
    | word blank set rest =>
      have behind := ih rest others chain
      have head : ∀ c ∈ _, isBlank c = true ∨ mayTouch piece.text c = true :=
        rest.head (fun item member => (others item member).edges.1) (by
          rintro ⟨set, second⟩ front bare
          cases bare
          exact next _ front)
      cases first with
      | literal literal _ => exact behind.literal literal blank set head
      | lexeme lexeme capital => exact behind.lexeme lexeme capital blank set head others next

/-- A text that spells whole pieces which may follow each other is read as these pieces. -/
theorem Written.flaggedPieces {items : Spelling} {text : Text}
    (written : Written (items.map (Prod.map id Piece.text)) text)
    (whole : ∀ item ∈ items, item.2.Whole) (follows : items.IsChain MayFollow) :
    SqlLayout.flaggedPieces text = items.map Prod.snd := by
  -- the written text has one line, so its line breaks are gone before the scan
  have oneLine := written.squeeze (by
    intro item member
    obtain ⟨⟨spaced, piece⟩, among, rfl⟩ := List.mem_map.mp member
    have here : piece.Whole := whole _ among
    exact ⟨here.edges.1, here.oneLine⟩)
  obtain ⟨raw, others, scanned, _, found, _⟩ := oneLine.readsAs whole follows
  rw [flaggedPieces_eq, scanned, List.flatMap_append, flaggedPiece_rawPiece, found]

end SqlLayout
