import SqlLayout.Bind.Marker
import SqlLayout.Proofs.Lexing.Attach
import SqlLayout.Proofs.Lexing.Respell

/-! Markers: one that was found once is found again wherever it is written, and ends where it did. -/

namespace SqlLayout

/-- The forms that a marker can have. -/
inductive IsMarker : Text → Prop where
  | plain {name : Text} (solid : name ≠ []) (named : ∀ c ∈ name, isMarkerChar c = true) :
      IsMarker (':' :: name)
  | braced {span : Text} (closed : closedBy? ['\x7d'] span = some (span, []))
      (solid : span.dropLast ≠ []) (named : ∀ c ∈ span.dropLast, isMarkerChar c = true) :
      IsMarker (':' :: '\x7b' :: span)
  -- A tag may hold anything but the bracket that closes it.
  | tagged {tag name : Text} (closed : closedBy? [']'] tag = some (tag, [])) (solid : name ≠ [])
      (named : ∀ c ∈ name, isMarkerChar c = true) : IsMarker (':' :: '[' :: (tag ++ name))
  | enclosed {sign : Char} {name : Text} (sort : sign ∈ ['#', '&']) (solid : name ≠ [])
      (named : ∀ c ∈ name, isMarkerChar c = true) : IsMarker (sign :: (name ++ [sign]))

/-- No marker begins with a character other than the three signs. -/
theorem marker?_eq_none {previous : Option Char} {c : Char} {rest : Text}
    (other : c ∉ [':', '#', '&']) : marker? previous (c :: rest) = none := by
  -- Every form of marker begins with one of the three signs.
  unfold marker?
  split
  · rename_i same
    cases same
    simp at other
  · rename_i same
    cases same
    simp at other
  · rename_i same
    cases same
    simp at other
  · rfl

/-- Behind a colon without a brace or a tag there is a name or nothing. -/
theorem colonMarker?_of_name {text : Text}
    (other : ∀ c ∈ text.head?, c ∉ ['\x7b', '[']) :
    colonMarker? text =
      if text.takeWhile isMarkerChar = [] then none
      else some (text.takeWhile isMarkerChar, text.dropWhile isMarkerChar) := by
  -- the two other ways to read on open with a brace or a bracket
  unfold colonMarker?
  split
  · exact absurd (other _ rfl) (by simp)
  · exact absurd (other _ rfl) (by simp)
  · rfl

/-- A span that was closed is closed by itself. -/
theorem closedBy?_self {close text span after : Text} (solid : close ≠ [])
    (found : closedBy? close text = some (span, after)) :
    closedBy? close span = some (span, []) := by
  -- The span is closed again with nothing behind it.
  have again := closedBy?_again solid found []
  rwa [List.append_nil] at again

/-- What is found as the rest of a colon marker makes a marker behind a colon. -/
theorem isMarker_of_colonMarker? {text marker after : Text}
    (found : colonMarker? text = some (marker, after)) : IsMarker (':' :: marker) := by
  -- by the way it reads on: a name in braces, a tag with a name behind it, or a bare name
  unfold colonMarker? at found
  split at found
  · obtain ⟨⟨span, tail⟩, inner, taken⟩ := Option.bind_eq_some_iff.mp found
    simp only at taken
    split at taken
    · rename_i name
      simp only [Option.some.injEq, Prod.mk.injEq] at taken
      obtain ⟨rfl, rfl⟩ := taken
      exact .braced (closedBy?_self (by simp) inner) name.1 (List.all_eq_true.mp name.2)
    · cases taken
  · obtain ⟨⟨tag, tail⟩, inner, taken⟩ := Option.bind_eq_some_iff.mp found
    simp only at taken
    split at taken
    · cases taken
    · rename_i solid
      simp only [Option.some.injEq, Prod.mk.injEq] at taken
      obtain ⟨rfl, rfl⟩ := taken
      exact .tagged (closedBy?_self (by simp) inner) solid fun _ => List.mem_takeWhile_imp
  · split at found
    · cases found
    · rename_i solid
      simp only [Option.some.injEq, Prod.mk.injEq] at found
      obtain ⟨rfl, rfl⟩ := found
      exact .plain solid fun _ => List.mem_takeWhile_imp

/-- What is found as the rest of an enclosed marker makes a marker behind its sign. -/
theorem isMarker_of_enclosedMarker? {sign : Char} {text marker after : Text}
    (sort : sign ∈ ['#', '&']) (found : enclosedMarker? sign text = some (marker, after)) :
    IsMarker (sign :: marker) := by
  -- Between the two signs stands the run of marker characters, which is not empty.
  unfold enclosedMarker? at found
  split at found
  · cases found
  · rename_i solid
    obtain ⟨tail, _, same⟩ := Option.map_eq_some_iff.mp found
    simp only [Prod.mk.injEq] at same
    obtain ⟨rfl, rfl⟩ := same
    exact .enclosed sort solid fun _ => List.mem_takeWhile_imp

/-- What is found as a marker is one. -/
theorem isMarker_of_marker? {previous : Option Char} {text marker after : Text}
    (found : marker? previous text = some (marker, after)) : IsMarker marker := by
  -- by its sign; a colon is no marker behind what it glues to
  unfold marker? at found
  split at found
  · split at found
    · cases found
    · obtain ⟨⟨inner, tail⟩, deeper, same⟩ := Option.map_eq_some_iff.mp found
      simp only [Prod.mk.injEq] at same
      obtain ⟨rfl, rfl⟩ := same
      exact isMarker_of_colonMarker? deeper
  · obtain ⟨⟨inner, tail⟩, deeper, same⟩ := Option.map_eq_some_iff.mp found
    simp only [Prod.mk.injEq] at same
    obtain ⟨rfl, rfl⟩ := same
    exact isMarker_of_enclosedMarker? (by simp) deeper
  · obtain ⟨⟨inner, tail⟩, deeper, same⟩ := Option.map_eq_some_iff.mp found
    simp only [Prod.mk.injEq] at same
    obtain ⟨rfl, rfl⟩ := same
    exact isMarker_of_enclosedMarker? (by simp) deeper
  · cases found

/-- A run of characters of one sort ends where another one stands. -/
theorem span_append {p : Char → Bool} {name other : Text} (named : ∀ c ∈ name, p c = true)
    (stop : ∀ c ∈ other.head?, p c = false) :
    (name ++ other).takeWhile p = name ∧ (name ++ other).dropWhile p = other := by
  -- neither run takes anything of what stops them
  have rest : other.takeWhile p = [] ∧ other.dropWhile p = other := by
    cases other with
    | nil => exact ⟨rfl, rfl⟩
    | cons c other => simp [stop c rfl]
  rw [List.takeWhile_append_of_pos named, List.dropWhile_append_of_pos named, rest.1, rest.2,
    List.append_nil]
  exact ⟨rfl, rfl⟩

/-- A marker is found again, with no character of its name behind it and no word in front of it. -/
theorem IsMarker.again {marker other : Text} {previous : Option Char} (here : IsMarker marker)
    (free : previous.any gluesColon = false) (stop : ∀ c ∈ other.head?, isMarkerChar c = false) :
    marker? previous (marker ++ other) = some (marker, other) := by
  -- by the form of the marker: its name is taken whole, for what follows stops it
  cases here with
  | @plain name solid named =>
    obtain ⟨front, back⟩ := span_append named stop
    -- a name holds neither a brace nor a bracket, so it is read as a bare one
    have deeper : colonMarker? (name ++ other) = some (name, other) := by
      unfold colonMarker?
      split
      · rename_i same
        obtain ⟨c, rest, rfl⟩ := List.exists_cons_of_ne_nil solid
        cases same
        exact absurd (named '\x7b' (.head _)) (by decide)
      · rename_i same
        obtain ⟨c, rest, rfl⟩ := List.exists_cons_of_ne_nil solid
        cases same
        exact absurd (named '[' (.head _)) (by decide)
      · rw [front, back, if_neg solid]
    simp [marker?, free, deeper]
  | @braced span closed solid named =>
    have inner := closedBy?_again (by simp) closed other
    have name : span.dropLast ≠ [] ∧ span.dropLast.all isMarkerChar = true :=
      ⟨solid, List.all_eq_true.mpr named⟩
    have deeper : colonMarker? ('\x7b' :: (span ++ other)) = some ('\x7b' :: span, other) := by
      simp only [colonMarker?, inner, Option.bind_some, if_pos name]
    simp [marker?, free, deeper]
  | @tagged tag name closed solid named =>
    obtain ⟨front, back⟩ := span_append named stop
    have inner := closedBy?_again (by simp) closed (name ++ other)
    have deeper : colonMarker? ('[' :: (tag ++ (name ++ other))) =
        some ('[' :: (tag ++ name), other) := by
      simp only [colonMarker?, inner, Option.bind_some, front, back, if_neg solid,
        List.cons_append]
    simp [marker?, free, deeper]
  | @enclosed sign name sort solid named =>
    -- the sign that closes is no character of a name
    have closes : isMarkerChar sign = false := by
      rcases List.mem_pair.mp sort with rfl | rfl
      · decide
      · decide
    obtain ⟨front, back⟩ := @span_append _ _ (sign :: other) named (by rintro c ⟨⟩; exact closes)
    have behind : Text.after? [sign] (sign :: other) = some other := Text.after?_eq_some.mpr rfl
    have deeper : enclosedMarker? sign (name ++ sign :: other) = some (name ++ [sign], other) := by
      rw [enclosedMarker?, front, back, if_neg solid, behind]
      rfl
    rcases List.mem_pair.mp sort with rfl | rfl
    · simp [marker?, deeper]
    · simp [marker?, deeper]

/-- The characters with which markers end. -/
def endsMarker (c : Char) : Bool :=
  -- A name, or what encloses one.
  isMarkerChar c || c == '\x7d' || c == '#' || c == '&'

/-- A text with a marker's name at its end ends with a character of the name. -/
theorem getLast?_named {front name : Text} (solid : name ≠ [])
    (named : ∀ c ∈ name, isMarkerChar c = true) :
    ∃ c ∈ (front ++ name).getLast?, endsMarker c = true := by
  -- The last character is that of the name.
  refine ⟨name.getLast solid, ?_, ?_⟩
  · rw [List.getLast?_append, List.getLast?_eq_getLast_of_ne_nil solid]
    rfl
  · simp [endsMarker, named _ (List.getLast_mem solid)]

/-- A marker ends with its name, or with what encloses its name. -/
theorem IsMarker.ends {marker : Text} (here : IsMarker marker) :
    ∃ c ∈ marker.getLast?, endsMarker c = true := by
  -- by the form: the last character is one of the name, the brace, or the sign
  cases here with
  | plain solid named => exact @getLast?_named [':'] _ solid named
  | @braced span closed _ _ =>
    obtain ⟨front, rfl⟩ := closedBy?_suffix closed
    exact ⟨'\x7d', @List.getLast?_concat _ (':' :: '\x7b' :: front) _, by decide⟩
  | @tagged tag name _ solid named => exact @getLast?_named (':' :: '[' :: tag) _ solid named
  | @enclosed sign name sort _ _ =>
    have all : ∀ c ∈ ['#', '&'], endsMarker c = true := by decide
    exact ⟨sign, @List.getLast?_concat _ (sign :: name) _, all sign sort⟩

/-- A character of a marker is one of a name. -/
theorem isNameChar_of_isMarkerChar {c : Char} (marker : isMarkerChar c = true) :
    isNameChar c = true := by
  -- Each sort of marker character is among the sorts of name characters.
  simp only [isMarkerChar, Bool.or_eq_true, beq_iff_eq] at marker
  simp only [isNameChar, Bool.or_eq_true, beq_iff_eq]
  tauto

/-- No marker ends with a blank. -/
theorem isBlank_of_endsMarker {c : Char} (ends : endsMarker c = true) : isBlank c = false := by
  -- A marker ends with a character of a name or with one of three signs.
  simp only [endsMarker, Bool.or_eq_true, beq_iff_eq] at ends
  rcases ends with ((name | rfl) | rfl) | rfl
  · exact isBlank_of_isNameChar (isNameChar_of_isMarkerChar name)
  · rfl
  · rfl
  · rfl

/-- A marker begins with one of three signs. -/
theorem IsMarker.begins {marker : Text} (here : IsMarker marker) :
    ∃ c ∈ marker.head?, c ∈ [':', '#', '&'] := by
  -- by the form: the first character is the sign itself
  cases here with
  | plain _ _ => exact ⟨':', rfl, by simp⟩
  | braced _ _ _ => exact ⟨':', rfl, by simp⟩
  | tagged _ _ _ => exact ⟨':', rfl, by simp⟩
  | @enclosed sign _ sort _ _ => exact ⟨sign, rfl, List.mem_cons_of_mem _ sort⟩

/-- A piece that is read as what it is, or a marker in the place of a name. -/
def Piece.Legible (piece : Piece) : Prop :=
  piece.Whole ∨ piece.kind = .name ∧ IsMarker piece.text

/-- A legible piece is not empty, and begins and ends with no blank. -/
theorem Piece.Legible.edges {piece : Piece} (legible : piece.Legible) :
    piece.text ≠ [] ∧ (∀ c ∈ piece.text.head?, isBlank c = false) ∧
      ∃ c ∈ piece.text.getLast?, isBlank c = false := by
  -- a whole piece has ink at its edges; a marker begins with its sign and ends as its form does
  rcases legible with whole | ⟨_, marker⟩
  · obtain ⟨solid, first, last⟩ := whole.edges
    have back := List.getLast?_eq_getLast_of_ne_nil solid
    exact ⟨solid, first, _, back, last _ back⟩
  · obtain ⟨c, front, sign⟩ := marker.begins
    obtain ⟨d, last, ends⟩ := marker.ends
    have signs : ∀ c ∈ [':', '#', '&'], isBlank c = false := by decide
    refine ⟨?_, ?_, d, last, isBlank_of_endsMarker ends⟩
    · intro bare
      rw [bare] at front
      cases front
    · intro e first
      cases front.symm.trans first
      exact signs c sign

/-- A legible piece is of a kind that tokens have. -/
theorem Piece.Legible.lexical {piece : Piece} (legible : piece.Legible) :
    piece.kind.isLexical = true := by
  -- A whole piece is lexical, and any other one is a name.
  rcases legible with whole | ⟨name, _⟩
  · exact whole.lexical.1
  · rw [name]
    rfl

/-- A token with nothing below it, whose text and comments are legible. -/
structure Token.Legible (token : Token) : Prop where
  /-- Nothing is below the token. -/
  leaf : token.children = []
  /-- The text of the token is legible. -/
  text : Piece.Legible ⟨token.kind, token.text⟩
  /-- The comments are read as comments. -/
  comments : ∀ comment ∈ token.comments, Piece.Whole ⟨.comment, comment⟩

/-- A whole token is legible. -/
theorem Token.Whole.legible {token : Token} (whole : token.Whole) : token.Legible :=
  -- Being whole is the first of the two ways for a piece to be legible.
  ⟨whole.leaf, .inl whole.text, whole.comments⟩

end SqlLayout
