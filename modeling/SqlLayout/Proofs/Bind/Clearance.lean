import SqlLayout.Proofs.Bind.Placed

/-!
Markers and literal spans.

The search for markers and the scan for literal spans go through a text each on its own.
They stay in step as long as no literal span begins in the tag of a marker, and no marker then
meets a literal span but for the braces around its own name.
-/

namespace SqlLayout

/-- Two stretches of a text that have a byte in common. -/
def ByteRange.Overlaps (range other : ByteRange) : Prop :=
  -- Each of them begins in front of the end of the other.
  range.start < other.stop ∧ other.start < range.stop

instance (range other : ByteRange) : Decidable (range.Overlaps other) :=
  inferInstanceAs (Decidable (_ ∧ _))

/-- A literal span where it stands in a text. -/
structure PlacedSpan where
  /-- The bytes that the span covers. -/
  range : ByteRange
  /-- The span. -/
  piece : Piece
  deriving DecidableEq

/-- The literal spans among pieces that begin at an offset. -/
def spansFrom : (offset : Nat) → List Piece → List PlacedSpan
  | _, [] => []
  | offset, piece :: rest =>
    -- A raw piece only moves the offset on.
    if piece.kind = .raw then spansFrom (offset + piece.text.byteLength) rest
    else
      ⟨⟨offset, offset + piece.text.byteLength⟩, piece⟩ ::
        spansFrom (offset + piece.text.byteLength) rest

/-- The literal spans of a text. -/
def literalSpans (sql : Text) : List PlacedSpan :=
  spansFrom 0 (scan sql)

/-- Whether a literal span is a text, a quoted name or a comment between slashes and stars. -/
def Piece.isGuarded (piece : Piece) : Bool :=
  piece.kind == .text || piece.kind == .name || ['/', '*'].isPrefixOf piece.text

/-- A span that is the braces around the name of a marker, and so all of it but the colon. -/
def IsBraces (range : ByteRange) (span : PlacedSpan) : Prop :=
  span.range = ⟨range.start + 1, range.stop⟩ ∧ span.piece.kind = .comment ∧
    span.piece.text.head? = some '\x7b'

/-- Markers that meet no literal span but for the braces around their own names. -/
def KeptClear (found : List ByteRange) (spans : List PlacedSpan) : Prop :=
  ∀ range ∈ found, ∀ span ∈ spans, range.Overlaps span.range → IsBraces range span

/-- Whether no literal span begins in a marker behind its first two characters. -/
def isQuiet (marker after : Text) : Bool :=
  -- A span that begins in the marker may well end behind it.
  (seek (fun _ here => literal? (here ++ after)) true (marker.drop 2)).isNone

/-- Whether all markers among the stretches of a text are quiet. -/
def allQuiet : List BindItem → Bool
  | [] => true
  | .marker marker :: items => isQuiet marker (items.flatMap BindItem.text) && allQuiet items
  | _ :: items => allQuiet items

/-- A text with no literal span that begins in the tag of a marker. -/
def QuietTags (sql : Text) : Prop :=
  allQuiet (bindItems none sql) = true

/-- A raw character in front of pieces moves the spans among them on. -/
theorem spansFrom_pushRaw (offset : Nat) (c : Char) (found : List Piece) :
    spansFrom offset (pushRaw c found) = spansFrom (offset + c.utf8Size) found := by
  -- The character joins a raw piece or makes one of its own, and neither is a span.
  unfold pushRaw
  split
  · simp [spansFrom, Text.byteLength, Nat.add_assoc]
  · simp [spansFrom, Text.byteLength]

/-- Raw text in front of pieces moves the spans among them on. -/
theorem spansFrom_foldr (offset : Nat) (passed : Text) (found : List Piece) :
    spansFrom offset (passed.foldr pushRaw found) =
      spansFrom (offset + passed.byteLength) found := by
  -- Each raw character only moves on the offset by its own size.
  induction passed generalizing offset with
  | nil => rfl
  | cons c passed ih =>
    rw [List.foldr_cons, spansFrom_pushRaw, ih, Text.byteLength, Nat.add_assoc]

/-- No span begins in front of the offset. -/
theorem le_start_of_mem_spansFrom {offset : Nat} {found : List Piece} :
    ∀ span ∈ spansFrom offset found, offset ≤ span.range.start := by
  -- The offset grows with every piece, and a span begins at the offset of its piece.
  induction found generalizing offset with
  | nil => exact List.forall_mem_nil _
  | cons piece rest ih =>
    have further : ∀ span ∈ spansFrom (offset + piece.text.byteLength) rest,
        offset ≤ span.range.start := by
      intro span member
      have place := ih span member
      omega
    rw [spansFrom]
    split
    · exact further
    · exact List.forall_mem_cons.mpr ⟨Nat.le_refl _, further⟩

/-- A character at which no literal span begins is passed over. -/
theorem spansFrom_cons {offset : Nat} {c : Char} {rest : Text}
    (plain : literal? (c :: rest) = none) :
    spansFrom offset (scan (c :: rest)) = spansFrom (offset + c.utf8Size) (scan rest) := by
  -- A character at which no literal begins is pushed in front of the scan.
  rw [scan_of_plain plain, spansFrom_pushRaw]

/-- A text in which no literal span begins is passed over. -/
theorem spansFrom_of_plain {offset : Nat} {passed text : Text}
    (plain : ∀ first second, passed = first ++ second → second ≠ [] →
      literal? (second ++ text) = none) :
    spansFrom offset (scan (passed ++ text)) =
      spansFrom (offset + passed.byteLength) (scan text) := by
  -- No literal begins within the text passed, and it is all raw.
  rw [scan_append plain, spansFrom_foldr]

/-- A literal span at the front of a text is the first of its spans. -/
theorem spansFrom_of_literal {offset : Nat} {text after : Text} {piece : Piece}
    (found : literal? text = some (piece, after)) :
    spansFrom offset (scan text) =
      ⟨⟨offset, offset + piece.text.byteLength⟩, piece⟩ ::
        spansFrom (offset + piece.text.byteLength) (scan after) := by
  -- The scan takes the literal, which is no raw piece and so has a range.
  have known := (isLiteral_of_literal? found).kind_ne_raw
  rw [scan_of_literal? found, spansFrom, if_neg known]

/-- A character of a marker's name begins no literal span. -/
theorem literal?_of_markerChar {c : Char} (marker : isMarkerChar c = true) (rest : Text) :
    literal? (c :: rest) = none :=
  -- Every marker character is a name character, and no literal begins with one.
  literal?_of_name (isNameChar_of_isMarkerChar marker) rest

/-- In a quiet marker no literal span begins at any place behind the first two characters. -/
theorem isQuiet_iff {marker after : Text} :
    isQuiet marker after = true ↔ ∀ first second, marker.drop 2 = first ++ second → second ≠ [] →
      literal? (second ++ after) = none := by
  -- A search for literals in what follows the first two characters finds nothing.
  rw [isQuiet, Option.isNone_iff_eq_none, seek_eq_none]

/-- A name in braces holds nothing that begins a literal span. -/
theorem isQuiet_of_braced {span : Text} (closed : closedBy? ['\x7d'] span = some (span, []))
    (named : ∀ c ∈ span.dropLast, isMarkerChar c = true) (after : Text) :
    isQuiet (':' :: '\x7b' :: span) after = true := by
  obtain ⟨name, rfl, _⟩ := closedBy?_char closed
  rw [List.dropLast_concat] at named
  rw [isQuiet_iff]
  intro first second split filled
  obtain ⟨c, rest, rfl⟩ := List.exists_cons_of_ne_nil filled
  -- Behind the opening brace stand the characters of the name, and the brace that closes it.
  have member : c ∈ name ++ ['\x7d'] := by
    rw [show name ++ ['\x7d'] = first ++ c :: rest from split]
    simp
  rcases List.mem_append.mp member with inside | last
  · exact literal?_of_markerChar (named c inside) _
  · rw [List.mem_singleton.mp last]
    exact literal?_of_plain (by decide) nofun

/-- The second character of a marker begins a literal span only if it is a brace. -/
theorem IsMarker.braced_or_plain {marker : Text} (here : IsMarker marker) :
    (∃ span, marker = ':' :: '\x7b' :: span ∧ closedBy? ['\x7d'] span = some (span, []) ∧
      ∀ c ∈ span.dropLast, isMarkerChar c = true) ∨
    ∃ c d inner, marker = c :: d :: inner ∧ ∀ rest, literal? (d :: rest) = none := by
  -- In the other forms it is the first of a name, or the bracket that opens a tag.
  cases here with
  | @plain name solid named =>
    obtain ⟨d, rest, rfl⟩ := List.exists_cons_of_ne_nil solid
    exact .inr ⟨':', d, rest, rfl, literal?_of_markerChar (named d (.head rest))⟩
  | @braced span closed solid named => exact .inl ⟨span, rfl, closed, named⟩
  | @tagged tag name closed solid named =>
    exact .inr ⟨':', '[', _, rfl, fun rest => literal?_of_plain (by decide) nofun⟩
  | @enclosed sign name sort solid named =>
    obtain ⟨d, rest, rfl⟩ := List.exists_cons_of_ne_nil solid
    exact .inr ⟨sign, d, _, rfl, literal?_of_markerChar (named d (.head rest))⟩

section Marker

variable {marker after : Text} (here : IsMarker marker) (plain : literal? (marker ++ after) = none)
  (offset : Nat)
include here plain

/-- In a quiet marker no literal span begins but for the braces around its name. -/
theorem IsMarker.spansFrom_of_quiet (quiet : isQuiet marker after = true) :
    ∃ own, spansFrom offset (scan (marker ++ after)) =
        own ++ spansFrom (offset + marker.byteLength) (scan after) ∧
      ∀ span ∈ own, IsBraces ⟨offset, offset + marker.byteLength⟩ span := by
  -- Only a marker in braces holds a span of its own; the others are scanned as raw text.
  rcases here.braced_or_plain with ⟨span, rfl, closed, _⟩ | ⟨c, d, inner, rfl, second⟩
  · -- The colon is passed over, and the braces are read as a comment.
    have braces : literal? ('\x7b' :: (span ++ after)) =
        some (⟨.comment, '\x7b' :: span⟩, after) := by
      have again := closedBy?_again (by simp) closed after
      simp [literal?, opened, again]
    have bytes : offset + Text.byteLength (':' :: '\x7b' :: span) =
        offset + ':'.utf8Size + Text.byteLength ('\x7b' :: span) := by
      rw [Text.byteLength, Nat.add_assoc]
    refine ⟨[⟨⟨offset + 1, offset + Text.byteLength (':' :: '\x7b' :: span)⟩,
      ⟨.comment, '\x7b' :: span⟩⟩], ?_, ?_⟩
    · rw [List.cons_append, List.cons_append] at plain ⊢
      rw [spansFrom_cons plain, spansFrom_of_literal braces, bytes]
      rfl
    · intro other member
      rw [List.mem_singleton.mp member]
      exact ⟨rfl, rfl, rfl⟩
  · -- No literal span begins at any character of the marker.
    refine ⟨[], ?_, List.forall_mem_nil _⟩
    rw [List.cons_append, List.cons_append] at plain ⊢
    have inside := isQuiet_iff.mp quiet
    rw [List.drop_succ_cons, List.drop_succ_cons, List.drop_zero] at inside
    rw [spansFrom_cons plain, spansFrom_cons (second _), spansFrom_of_plain inside]
    simp only [Text.byteLength, Nat.add_assoc, List.nil_append]

/-- In a marker that is not quiet a literal span begins behind the first two characters. -/
theorem IsMarker.exists_span_of_not_quiet (loud : isQuiet marker after = false) :
    ∃ span ∈ spansFrom offset (scan (marker ++ after)), offset + 1 < span.range.start ∧
      ByteRange.Overlaps ⟨offset, offset + marker.byteLength⟩ span.range := by
  -- The braces of a marker are always quiet, so that the span is found in another form.
  rcases here.braced_or_plain with ⟨span, rfl, closed, named⟩ | ⟨c, d, inner, rfl, second⟩
  · rw [isQuiet_of_braced closed named] at loud
    cases loud
  · -- The scan goes up to the first place in the marker at which a span begins.
    rcases met : seek (fun _ here => literal? (here ++ after)) true inner with
      _ | ⟨front, piece, rest⟩
    · rw [isQuiet, show (c :: d :: inner).drop 2 = inner from rfl, met] at loud
      cases loud
    · obtain ⟨back, rfl, filled, found, absent⟩ := seek_eq_some.mp met
      have passed : ∀ first second, front = first ++ second → second ≠ [] →
          literal? (second ++ (back ++ after)) = none := by
        intro first second split solid
        have none := absent first second split solid
        rwa [List.append_assoc] at none
      rw [List.cons_append, List.cons_append] at plain ⊢
      rw [spansFrom_cons plain, spansFrom_cons (second _), List.append_assoc,
        spansFrom_of_plain passed, spansFrom_of_literal found]
      refine ⟨_, List.mem_cons_self, ?_, ?_⟩
      · have one := c.utf8Size_pos
        have other := d.utf8Size_pos
        show offset + 1 < offset + c.utf8Size + d.utf8Size + front.byteLength
        omega
      · -- The span begins in the marker, as some of it is left there.
        have left := Text.byteLength_pos filled
        have own := Text.byteLength_pos (literal?_text_ne_nil found)
        constructor
        · show offset < offset + c.utf8Size + d.utf8Size + front.byteLength + piece.text.byteLength
          omega
        · show offset + c.utf8Size + d.utf8Size + front.byteLength <
            offset + Text.byteLength (c :: d :: (front ++ back))
          simp only [Text.byteLength, Text.byteLength_append]
          omega

end Marker

/-- What ends in front of a place meets nothing that is found from there on. -/
theorem keptClear_append {place : Nat} {found : List ByteRange} {spans : List PlacedSpan}
    (ends : ∀ range ∈ found, range.stop ≤ place) (ends' : ∀ span ∈ spans, span.range.stop ≤ place)
    (items : List BindItem) (rest : List Piece) :
    KeptClear (found ++ markerRanges place items) (spans ++ spansFrom place rest) ↔
      KeptClear found spans ∧ KeptClear (markerRanges place items) (spansFrom place rest) := by
  -- The pairs of a marker and a span are parted by the sides of the place they stand on.
  constructor
  · intro clear
    constructor
    · intro range member span among
      exact clear range (List.mem_append_left _ member) span (List.mem_append_left _ among)
    · intro range member span among
      exact clear range (List.mem_append_right _ member) span (List.mem_append_right _ among)
  · intro clear range member span among overlap
    -- Only two stretches on the same side of the place can overlap.
    rcases List.mem_append.mp member with front | back
    · rcases List.mem_append.mp among with front' | back'
      · exact clear.1 range front span front' overlap
      · have stop := ends range front
        have start := le_start_of_mem_spansFrom span back'
        unfold ByteRange.Overlaps at overlap
        omega
    · rcases List.mem_append.mp among with front' | back'
      · have stop := ends' span front'
        have start := (markerRanges_ordered place items).1 range back
        unfold ByteRange.Overlaps at overlap
        omega
      · exact clear.2 range back span back' overlap

/-- Among stretches the markers are quiet exactly if they are kept clear of the literal spans. -/
theorem allQuiet_iff (previous : Option Char) (text : Text) (offset : Nat) :
    allQuiet (bindItems previous text) = true ↔
      KeptClear (markerRanges offset (bindItems previous text)) (spansFrom offset (scan text)) := by
  -- Both walks take one stretch at a time, up to the first marker that is not quiet.
  fun_induction bindItems previous text generalizing offset with
  | case1 => exact iff_of_true rfl (List.forall_mem_nil _)
  | case2 previous c rest piece after found ih =>
    -- The span ends where all markers and all other spans begin.
    have ends : ∀ span ∈ [PlacedSpan.mk ⟨offset, offset + piece.text.byteLength⟩ piece],
        span.range.stop ≤ offset + piece.text.byteLength := by
      simp
    have step := keptClear_append (List.forall_mem_nil _) ends
      (bindItems piece.text.getLast? after) (scan after)
    rw [spansFrom_of_literal found]
    calc
      _ ↔ _ := ih (offset + piece.text.byteLength)
      _ ↔ _ := (and_iff_right (List.forall_mem_nil _)).symm
      _ ↔ _ := step.symm
  | case3 previous c rest plain marker after found ih =>
    obtain ⟨_, whole⟩ := marker?_append found
    have here := isMarker_of_marker? found
    rw [← whole] at plain ⊢
    rw [allQuiet, flatMap_bindItems, Bool.and_eq_true, ih (offset + marker.byteLength)]
    show _ ↔ KeptClear (⟨offset, offset + marker.byteLength⟩ ::
      markerRanges (offset + marker.byteLength) (bindItems marker.getLast? after)) _
    rcases quiet : isQuiet marker after with _ | _
    · -- A span begins too far behind the colon to be the braces of the marker.
      obtain ⟨span, member, far, overlap⟩ := here.exists_span_of_not_quiet plain offset quiet
      refine iff_of_false (by simp) ?_
      intro clear
      have braces := (clear _ List.mem_cons_self span member overlap).1
      rw [braces] at far
      exact absurd far (Nat.lt_irrefl _)
    · -- Both walks come out of the marker at the same place.
      obtain ⟨own, spans, braces⟩ := here.spansFrom_of_quiet plain offset quiet
      have ends : ∀ span ∈ own, span.range.stop ≤ offset + marker.byteLength := by
        intro span member
        rw [(braces span member).1]
      have step := @keptClear_append _ [⟨offset, offset + marker.byteLength⟩] own (by simp) ends
        (bindItems marker.getLast? after) (scan after)
      have first : KeptClear [⟨offset, offset + marker.byteLength⟩] own := by
        intro range member span among _
        rw [List.mem_singleton.mp member]
        exact braces span among
      rw [spans, ← List.singleton_append, step]
      exact and_congr_left fun _ => iff_of_true rfl first
  | case4 previous c rest plain unmarked ih =>
    rw [spansFrom_cons plain]
    exact ih (offset + c.utf8Size)

/--
Markers are kept clear of the literal spans of a text exactly if no span begins in a tag of theirs.

A marker then overlaps no literal span but for the braces around its own name, and so no text, no
quoted name and no comment between slashes and stars.
-/
theorem markers_keptClear_iff (sql : Text) :
    (QuietTags sql ↔ KeptClear (markers sql) (literalSpans sql)) ∧
      (QuietTags sql → ∀ range ∈ markers sql, ∀ span ∈ literalSpans sql,
        span.piece.isGuarded = true → ¬range.Overlaps span.range) := by
  have same : QuietTags sql ↔ KeptClear (markers sql) (literalSpans sql) := by
    rw [markers_eq]
    exact allQuiet_iff none sql 0
  refine ⟨same, ?_⟩
  intro quiet range member span among guarded overlap
  obtain ⟨_, comment, brace⟩ := same.mp quiet range member span among overlap
  -- The braces around a name are a comment of the other sort.
  obtain ⟨rest, text⟩ := List.head?_eq_some_iff.mp brace
  rw [Piece.isGuarded, comment, text] at guarded
  cases guarded

/-- A text with markers of three sorts, one of them around the braces of its name. -/
theorem markers_keptClear_sorts :
    QuietTags ":[OUT]a ':x' :\x7bb\x7d /* #c# */ &d&".toList ∧
      markers ":[OUT]a ':x' :\x7bb\x7d /* #c# */ &d&".toList = [⟨0, 7⟩, ⟨13, 17⟩, ⟨28, 31⟩] ∧
      ∀ range ∈ markers ":[OUT]a ':x' :\x7bb\x7d /* #c# */ &d&".toList,
        ∀ span ∈ literalSpans ":[OUT]a ':x' :\x7bb\x7d /* #c# */ &d&".toList,
          span.piece.isGuarded = true → ¬range.Overlaps span.range := by
  -- The tag is quiet and the ranges are computed; that they lie clear is the general law.
  have quiet : QuietTags ":[OUT]a ':x' :\x7bb\x7d /* #c# */ &d&".toList := by
    unfold QuietTags
    decide +kernel
  refine ⟨quiet, by decide +kernel, ?_⟩
  exact (markers_keptClear_iff _).2 quiet

/-- A quote in a tag: a text begins in the first marker, and the second one lies in that text. -/
theorem markers_in_text :
    markers ":[']x, '', :y '".toList = [⟨0, 5⟩, ⟨11, 13⟩] ∧
      literalSpans ":[']x, '', :y '".toList = [⟨⟨2, 15⟩, ⟨.text, "']x, '', :y '".toList⟩⟩] ∧
      ¬∀ range ∈ markers ":[']x, '', :y '".toList, ∀ span ∈ literalSpans ":[']x, '', :y '".toList,
        span.piece.isGuarded = true → ¬range.Overlaps span.range := by
  -- The ranges on both sides are computed, and compared.
  decide +kernel

end SqlLayout
