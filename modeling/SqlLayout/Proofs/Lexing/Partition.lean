import SqlLayout.Proofs.Lexing.Within

/-!
The pieces of a scanned text.

Scanning cuts a text into literal spans and the raw text between them, and there is no other way to
cut it so.
-/

namespace SqlLayout

/-- What may stand between two quotes: other characters, and quotes taken in pairs from the left. -/
inductive QuotedBody (quote : Char) : Text → Prop where
  | nil : QuotedBody quote []
  | other {c : Char} {body : Text} : c ≠ quote → QuotedBody quote body →
    QuotedBody quote (c :: body)
  | doubled {body : Text} : QuotedBody quote body → QuotedBody quote (quote :: quote :: body)

/-- A text that reaches up to the first place at which a word stands in it or behind it. -/
def ReachesFirst (word body after : Text) : Prop :=
  ∀ front back, body ++ (word ++ after) = front ++ (word ++ back) → body.length ≤ front.length

/-- A literal span with a text behind it. -/
inductive SpanBefore (after : Text) : Piece → Prop where
  /-- A quoted span ends with the first quote that is not one of a pair. -/
  | quoted {kind : Kind} {quote : Char} {body : Text} : Encloses kind [quote] [quote] →
    QuotedBody quote body → after.head? ≠ some quote →
    SpanBefore after ⟨kind, quote :: (body ++ [quote])⟩
  /-- A comment ends with the first closing word behind the opening one. -/
  | comment {opening closing body : Text} : Encloses .comment opening closing →
    ReachesFirst closing body after → SpanBefore after ⟨.comment, opening ++ (body ++ closing)⟩

/-- What has to hold of a piece of a text and of the pieces behind it. -/
structure Piece.Fits (piece : Piece) (back : List Piece) : Prop where
  /-- There is at least one character. -/
  solid : piece.text ≠ []
  /-- A piece that is not raw is a literal span. -/
  span : piece.kind ≠ .raw → SpanBefore (back.flatMap Piece.text) piece
  /-- No two raw pieces stand in a row. -/
  apart : piece.kind = .raw → ∀ next ∈ back.head?, next.kind ≠ .raw
  /-- No literal span begins inside a raw piece. -/
  plain : piece.kind = .raw → ∀ before here, piece.text = before ++ here → here ≠ [] →
    ∀ other after, here ++ back.flatMap Piece.text = other.text ++ after → ¬SpanBefore after other

/-- A text cut into literal spans and raw pieces. -/
structure IsPartition (text : Text) (found : List Piece) : Prop where
  /-- The pieces make up the text. -/
  whole : found.flatMap Piece.text = text
  /-- Every piece fits where it stands. -/
  fits : ∀ front piece back, found = front ++ piece :: back → piece.Fits back

/-- A quoted span is a body without single quotes and the quote behind it, which is not doubled. -/
theorem quotedEnd?_eq_some {quote : Char} {text span after : Text} :
    quotedEnd? quote text = some (span, after) ↔
      ∃ body, span = body ++ [quote] ∧ text = span ++ after ∧ QuotedBody quote body ∧
        after.head? ≠ some quote := by
  -- What was found is taken apart along the reading, what is given along the body.
  constructor
  · intro found
    have whole := quotedEnd?_append found
    have stops := quotedEnd?_stops found
    -- The reading takes one character, or a pair of quotes, into the body at a time.
    suffices parts : ∃ body, span = body ++ [quote] ∧ QuotedBody quote body by
      obtain ⟨body, same, inner⟩ := parts
      exact ⟨body, same, whole.symm, inner, stops⟩
    clear whole stops
    fun_induction quotedEnd? quote text generalizing span after with
    | case1 => cases found
    | case2 =>
      cases found
      exact ⟨[], rfl, .nil⟩
    | case3 rest ih =>
      obtain ⟨⟨inner, behind⟩, deeper, same⟩ := Option.map_eq_some_iff.mp found
      cases same
      obtain ⟨body, rfl, quoted⟩ := ih deeper
      exact ⟨quote :: quote :: body, rfl, .doubled quoted⟩
    | case4 d rest apart =>
      cases found
      exact ⟨[], rfl, .nil⟩
    | case5 c rest apart ih =>
      obtain ⟨⟨inner, behind⟩, deeper, same⟩ := Option.map_eq_some_iff.mp found
      cases same
      obtain ⟨body, rfl, quoted⟩ := ih deeper
      exact ⟨c :: body, rfl, .other apart quoted⟩
  · rintro ⟨body, rfl, rfl, inner, stops⟩
    induction inner with
    | nil =>
      cases after with
      | nil => simp [quotedEnd?]
      | cons d after =>
        have apart : d ≠ quote := by simpa using stops
        simp [quotedEnd?, apart]
    | other apart _ ih =>
      rw [List.cons_append, List.cons_append, quotedEnd?.eq_def]
      simpa [apart] using ih
    | doubled _ ih =>
      rw [List.cons_append, List.cons_append, List.cons_append, List.cons_append, quotedEnd?.eq_def]
      simpa using ih

/-- A closed span is a body up to the first closing word, and that word. -/
theorem closedBy?_eq_some {close text span after : Text} (solid : close ≠ []) :
    closedBy? close text = some (span, after) ↔
      ∃ body, span = body ++ close ∧ text = span ++ after ∧ ReachesFirst close body after := by
  -- What was found is taken apart along the search, what is given along the body.
  constructor
  · intro found
    have whole := closedBy?_append found
    suffices parts : ∃ body, span = body ++ close ∧ ReachesFirst close body after by
      obtain ⟨body, same, first⟩ := parts
      exact ⟨body, same, whole.symm, first⟩
    clear whole
    fun_induction closedBy? close text generalizing span after with
    | case1 => cases found
    | case2 c rest tail here =>
      cases found
      exact ⟨[], rfl, fun _ _ _ => Nat.zero_le _⟩
    | case3 c rest absent ih =>
      obtain ⟨⟨inner, behind⟩, deeper, same⟩ := Option.map_eq_some_iff.mp found
      cases same
      have whole := closedBy?_append deeper
      obtain ⟨body, rfl, first⟩ := ih deeper
      refine ⟨c :: body, rfl, ?_⟩
      intro front back split
      rw [List.append_assoc] at whole
      cases front with
      | nil =>
        -- The word does not stand at the front, where it was looked for and not found.
        rw [List.cons_append, whole, List.nil_append] at split
        rw [Text.after?_eq_some.mpr split] at absent
        cases absent
      | cons d front =>
        have later := first front back (List.cons.inj split).2
        simp only [List.length_cons]
        omega
  · rintro ⟨body, rfl, rfl, first⟩
    induction body with
    | nil =>
      obtain ⟨d, close, rfl⟩ := List.exists_cons_of_ne_nil solid
      rw [List.nil_append, List.cons_append, closedBy?, ← List.cons_append,
        Text.after?_eq_some.mpr rfl]
    | cons c body ih =>
      -- A closing word at the front would stand before the first one.
      have absent : Text.after? close (c :: (body ++ close ++ after)) = none := by
        rcases found : Text.after? close (c :: (body ++ close ++ after)) with _ | back
        · rfl
        · have whole := Text.after?_eq_some.mp found
          have early := first [] back (by simpa using whole)
          simp at early
      have behind := ih fun front back split => by
        have later := first (c :: front) back (congrArg (c :: ·) split)
        simpa using later
      rw [List.cons_append, List.cons_append, closedBy?, absent, behind]
      rfl

/-- A literal span is found at the front of a text exactly where one stands there. -/
theorem literal?_eq_some {text after : Text} {piece : Piece} :
    literal? text = some (piece, after) ↔ text = piece.text ++ after ∧ SpanBefore after piece := by
  constructor
  · intro found
    refine ⟨(literal?_append found).symm, ?_⟩
    -- The opening sign tells which of the four forms was read.
    unfold literal? opened at found
    split at found
    case h_5 => cases found
    all_goals
      obtain ⟨⟨span, tail⟩, inner, same⟩ := Option.map_eq_some_iff.mp found
      cases same
    case h_1 =>
      obtain ⟨body, rfl, _, quoted, stops⟩ := quotedEnd?_eq_some.mp inner
      exact .quoted .text quoted stops
    case h_2 =>
      obtain ⟨body, rfl, _, quoted, stops⟩ := quotedEnd?_eq_some.mp inner
      exact .quoted .name quoted stops
    case h_3 =>
      obtain ⟨body, rfl, _, first⟩ := (closedBy?_eq_some (by simp)).mp inner
      exact .comment .braces first
    case h_4 =>
      obtain ⟨body, rfl, _, first⟩ := (closedBy?_eq_some (by simp)).mp inner
      exact .comment .stars first
  · rintro ⟨rfl, here⟩
    cases here with
    | @quoted kind quote body sort quoted stops =>
      have found := quotedEnd?_eq_some.mpr ⟨body, rfl, rfl, quoted, stops⟩
      cases sort with
      | text => simpa [literal?, opened] using found
      | name => simpa [literal?, opened] using found
    | @comment opening closing body sort first =>
      cases sort with
      | braces =>
        have found := (closedBy?_eq_some (by simp)).mpr ⟨body, rfl, rfl, first⟩
        simpa [literal?, opened] using found
      | stars =>
        have found := (closedBy?_eq_some (by simp)).mpr ⟨body, rfl, rfl, first⟩
        simpa [literal?, opened] using found

/-- What holds of each piece with the pieces behind it holds of the first one and of the others. -/
theorem forall_parts_cons {fits : Piece → List Piece → Prop} {first : Piece} {others : List Piece} :
    (∀ front piece back, first :: others = front ++ piece :: back → fits piece back) ↔
      fits first others ∧
        ∀ front piece back, others = front ++ piece :: back → fits piece back := by
  constructor
  · intro all
    refine ⟨all [] first others rfl, fun front piece back split => ?_⟩
    exact all (first :: front) piece back (congrArg (first :: ·) split)
  · rintro ⟨here, later⟩ front piece back split
    -- A piece is the first one or stands among the others.
    cases front with
    | nil =>
      cases split
      exact here
    | cons other front => exact later front piece back (List.cons.inj split).2

/-- Where no literal span is found at the front of a text, none stands there. -/
theorem not_spanBefore {text : Text} (absent : literal? text = none) :
    ∀ other after, text = other.text ++ after → ¬SpanBefore after other := by
  -- A span that begins the text would be the literal found there.
  intro other after split here
  rw [literal?_eq_some.mpr ⟨split, here⟩] at absent
  cases absent

/-- A raw character in front of pieces that fit makes pieces that fit. -/
theorem fits_pushRaw {c : Char} {rest : Text} {found : List Piece}
    (whole : found.flatMap Piece.text = rest) (absent : literal? (c :: rest) = none)
    (fits : ∀ front piece back, found = front ++ piece :: back → piece.Fits back) :
    ∀ front piece back, pushRaw c found = front ++ piece :: back → piece.Fits back := by
  -- Only the piece that takes the character in changes; the others have the same text behind them.
  unfold pushRaw
  split
  · -- The character goes into a raw piece, in front of the characters it had.
    rename_i text others
    obtain ⟨here, later⟩ := forall_parts_cons.mp fits
    refine forall_parts_cons.mpr ⟨⟨by simp, fun known => absurd rfl known, here.apart, ?_⟩, later⟩
    intro raw before tail split solid
    cases before with
    | nil =>
      cases split
      rw [← whole] at absent
      exact not_spanBefore absent
    | cons d before => exact here.plain raw before tail (List.cons.inj split).2 solid
  · -- The character is a raw piece of its own, as what follows it is none.
    rename_i other
    refine forall_parts_cons.mpr ⟨⟨by simp, fun known => absurd rfl known, ?_, ?_⟩, fits⟩
    · -- A raw piece behind it would have taken the character in.
      intro _ next first raw
      obtain ⟨kind, text⟩ := next
      cases raw
      obtain ⟨others, rfl⟩ := List.head?_eq_some_iff.mp first
      exact other text others rfl
    · intro raw before tail split solid
      obtain ⟨rfl, rfl⟩ : before = [] ∧ tail = [c] := by
        rcases List.append_eq_singleton_iff.mp split.symm with ⟨bare, same⟩ | ⟨_, bare⟩
        · exact ⟨bare, same⟩
        · exact absurd bare solid
      rw [whole]
      exact not_spanBefore absent

/-- The pieces that a text is scanned into fit where they stand. -/
theorem fits_scan (text : Text) :
    ∀ front piece back, scan text = front ++ piece :: back → piece.Fits back := by
  fun_induction scan text with
  | case1 =>
    intro front piece back split
    cases front <;> cases split
  | case2 c rest piece after found ih =>
    -- A literal span has the rest of the text behind it.
    have known := (isLiteral_of_literal? found).kind_ne_raw
    refine forall_parts_cons.mpr ⟨⟨literal?_text_ne_nil found, fun _ => ?_, ?_, ?_⟩, ih⟩
    · rw [flatMap_scan]
      exact (literal?_eq_some.mp found).2
    · exact fun raw => absurd raw known
    · exact fun raw => absurd raw known
  | case3 c rest absent ih => exact fits_pushRaw (flatMap_scan rest) absent ih

/-- Pieces that fit where they stand are those that their text is scanned into. -/
theorem scan_of_fits {found : List Piece}
    (fits : ∀ front piece back, found = front ++ piece :: back → piece.Fits back) :
    scan (found.flatMap Piece.text) = found := by
  -- The pieces behind the first one are scanned from the text that is left behind it.
  induction found with
  | nil => simp [scan]
  | cons piece found ih =>
    obtain ⟨here, later⟩ := forall_parts_cons.mp fits
    have behind := ih later
    rw [List.flatMap_cons]
    by_cases raw : piece.kind = .raw
    · -- Nothing is found inside a raw piece, and what follows it is not raw.
      have plain : ∀ first second, piece.text = first ++ second → second ≠ [] →
          literal? (second ++ found.flatMap Piece.text) = none := by
        intro first second split solid
        rcases met : literal? (second ++ found.flatMap Piece.text) with _ | ⟨other, after⟩
        · rfl
        · obtain ⟨whole, span⟩ := literal?_eq_some.mp met
          exact absurd span (here.plain raw first second split solid other after whole)
      have joined := @foldr_pushRaw piece.text [] found (here.apart raw)
      rw [scan_append plain, behind]
      obtain ⟨kind, text⟩ := piece
      cases raw
      have solid : text ≠ [] := here.solid
      simpa [rawPiece, solid] using joined
    · -- A span that stands at the front is found there.
      rw [scan_of_literal? (literal?_eq_some.mpr ⟨rfl, here.span raw⟩), behind]

/--
Scanning cuts a text into literal spans and raw pieces, in the only way there is.

The pieces make up the text, none is empty and no two raw ones stand in a row.
A quoted span ends with the first quote behind its opening that is not one of a pair, and a comment
with the first closing word behind its opening.
Inside a raw piece no literal span begins.
-/
theorem scan_eq_iff (text : Text) (found : List Piece) :
    scan text = found ↔ IsPartition text found := by
  -- what the scan finds is a partition, and a partition is what it finds
  constructor
  · rintro rfl
    exact ⟨flatMap_scan text, fits_scan text⟩
  · rintro ⟨rfl, fits⟩
    exact scan_of_fits fits

end SqlLayout
