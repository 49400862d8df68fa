import SqlLayout.Proofs.Bind.Selection

/-!
Where markers are found.

Every range that is found covers a marker in one of the five forms, and a text is cut at all of
them.
-/

namespace SqlLayout

/-- A name that a marker can have. -/
structure IsMarkerName (name : Text) : Prop where
  /-- There is at least one character. -/
  solid : name ≠ []
  /-- There is none but ASCII letters and digits, the underscore and the point. -/
  named : ∀ c ∈ name, isMarkerChar c = true

/-- A place at which a colon may begin a marker, given the text in front of it. -/
def FreeOfWord (before : Text) : Prop :=
  -- The byte in front, if there is one, is no letter or digit and no sign that takes the colon.
  before.bytes.getLast?.any gluesColonByte = false

/-- A text at whose front no name can go on. -/
def EndsName (after : Text) : Prop :=
  -- Nothing follows, or something that stands in no name.
  after.head?.any isMarkerChar = false

/-- A marker between the text in front of it and the text behind it, in each of the five forms. -/
inductive MarkerAt (before : Text) : (marker after : Text) → Prop where
  | named {name after : Text} (free : FreeOfWord before) (known : IsMarkerName name)
      (ends : EndsName after) : MarkerAt before (':' :: name) after
  | braced {name after : Text} (free : FreeOfWord before) (known : IsMarkerName name) :
      MarkerAt before (':' :: '\x7b' :: (name ++ ['\x7d'])) after
  | tagged {tag name after : Text} (free : FreeOfWord before) (plain : ']' ∉ tag)
      (known : IsMarkerName name) (ends : EndsName after) :
      MarkerAt before (':' :: '[' :: (tag ++ ']' :: name)) after
  -- Between two hashes, or between two ampersands.
  | enclosed {sign : Char} {name after : Text} (sort : sign ∈ ['#', '&'])
      (known : IsMarkerName name) : MarkerAt before (sign :: (name ++ [sign])) after

/-- A name that is read as far as it goes ends where it can not go on. -/
theorem isMarkerName_takeWhile {text : Text} (solid : text.takeWhile isMarkerChar ≠ []) :
    IsMarkerName (text.takeWhile isMarkerChar) ∧ EndsName (text.dropWhile isMarkerChar) := by
  refine ⟨⟨solid, fun _ => List.mem_takeWhile_imp⟩, ?_⟩
  unfold EndsName
  rcases rest : text.dropWhile isMarkerChar with _ | ⟨c, others⟩
  · rfl
  · -- The first character that was left is none of a name.
    have stop := List.head?_dropWhile_not isMarkerChar text
    rw [rest] at stop
    simpa using stop

/-- A span that one character closes holds that character at its end only. -/
theorem closedBy?_char {close : Char} {text span after : Text}
    (found : closedBy? [close] text = some (span, after)) :
    ∃ body, span = body ++ [close] ∧ close ∉ body := by
  -- The span is read on one character at a time, up to the first that closes it.
  fun_induction closedBy? [close] text generalizing span after with
  | case1 => cases found
  | case2 c rest tail here =>
    cases found
    exact ⟨[], rfl, List.not_mem_nil⟩
  | case3 c rest absent ih =>
    obtain ⟨⟨inner, behind⟩, deeper, same⟩ := Option.map_eq_some_iff.mp found
    cases same
    obtain ⟨body, rfl, plain⟩ := ih deeper
    -- A character at which the span goes on does not close it.
    have other : close ≠ c := by
      rintro rfl
      simp [Text.after?] at absent
    refine ⟨c :: body, rfl, ?_⟩
    rw [List.mem_cons]
    exact not_or_intro other plain

/-- What is found behind a colon makes a marker there. -/
theorem markerAt_of_colonMarker? {before text marker after : Text} (free : FreeOfWord before)
    (found : colonMarker? text = some (marker, after)) :
    MarkerAt before (':' :: marker) after := by
  -- The three forms behind a colon are tried in their order.
  unfold colonMarker? at found
  split at found
  · -- What stands in front of the closing brace is the name.
    obtain ⟨⟨span, tail⟩, inner, taken⟩ := Option.bind_eq_some_iff.mp found
    obtain ⟨name, rfl, _⟩ := closedBy?_char inner
    simp only [List.dropLast_concat] at taken
    split at taken
    · rename_i known
      cases taken
      exact .braced free ⟨known.1, List.all_eq_true.mp known.2⟩
    · cases taken
  · -- The tag ends at the first closing bracket, and the name where no other character follows it.
    obtain ⟨⟨span, tail⟩, inner, taken⟩ := Option.bind_eq_some_iff.mp found
    obtain ⟨tag, rfl, plain⟩ := closedBy?_char inner
    simp only at taken
    split at taken
    · cases taken
    · rename_i solid
      cases taken
      obtain ⟨known, ends⟩ := isMarkerName_takeWhile solid
      have marked := MarkerAt.tagged free plain known ends
      simpa using marked
  · -- Anything else behind the colon is a name, read as far as it goes.
    split at found
    · cases found
    · rename_i solid
      cases found
      obtain ⟨known, ends⟩ := isMarkerName_takeWhile solid
      exact .named free known ends

/-- What is found behind a sign that encloses makes a marker there. -/
theorem markerAt_of_enclosedMarker? {before text marker after : Text} {sign : Char}
    (sort : sign ∈ ['#', '&']) (found : enclosedMarker? sign text = some (marker, after)) :
    MarkerAt before (sign :: marker) after := by
  -- The sign is found again right behind the name.
  unfold enclosedMarker? at found
  split at found
  · cases found
  · rename_i solid
    obtain ⟨tail, _, same⟩ := Option.map_eq_some_iff.mp found
    cases same
    exact .enclosed sort (isMarkerName_takeWhile solid).1

/-- What is found as a marker behind a text is one there. -/
theorem markerAt_of_marker? {before text marker after : Text}
    (found : marker? before.getLast? text = some (marker, after)) :
    MarkerAt before marker after := by
  -- Only a colon is kept from beginning a marker by what stands in front of it.
  unfold marker? at found
  split at found
  · split at found
    · cases found
    · rename_i unglued
      obtain ⟨⟨inner, tail⟩, deeper, same⟩ := Option.map_eq_some_iff.mp found
      cases same
      -- The byte in front tells as much about words as the character does.
      have free : FreeOfWord before := by
        rw [FreeOfWord, Text.last_bytes]
        simpa using unglued
      exact markerAt_of_colonMarker? free deeper
  · obtain ⟨⟨inner, tail⟩, deeper, same⟩ := Option.map_eq_some_iff.mp found
    cases same
    exact markerAt_of_enclosedMarker? (by simp) deeper
  · obtain ⟨⟨inner, tail⟩, deeper, same⟩ := Option.map_eq_some_iff.mp found
    cases same
    exact markerAt_of_enclosedMarker? (by simp) deeper
  · cases found

/-- A range that covers a marker where it stands in a text. -/
def CoversMarker (sql : Text) (range : ByteRange) : Prop :=
  ∃ before marker after, sql = before ++ (marker ++ after) ∧
    range = ⟨before.byteLength, (before ++ marker).byteLength⟩ ∧ MarkerAt before marker after

/-- A text behind which a solid piece is put ends as the piece does. -/
theorem getLast?_append_solid (front : Text) {piece : Text} (solid : piece ≠ []) :
    (front ++ piece).getLast? = piece.getLast? := by
  -- The piece has a last character, which is then that of both.
  rw [List.getLast?_append, List.getLast?_eq_some_getLast solid]
  rfl

/-- The ranges of the markers among the stretches behind a text cover markers. -/
theorem coversMarker_of_mem {previous : Option Char} {front text : Text}
    (last : front.getLast? = previous) :
    ∀ range ∈ markerRanges front.byteLength (bindItems previous text),
      CoversMarker (front ++ text) range := by
  -- Every stretch goes to what stands in front of the next one, so that this ends as it does.
  fun_induction bindItems previous text generalizing front with
  | case1 => exact List.forall_mem_nil _
  | case2 previous c rest piece after found ih =>
    -- A literal span is only passed.
    have solid := literal?_text_ne_nil found
    have behind := ih (getLast?_append_solid front solid)
    rw [Text.byteLength_append, List.append_assoc, literal?_append found] at behind
    exact behind
  | case3 previous c rest plain marker after found ih =>
    obtain ⟨solid, whole⟩ := marker?_append found
    have behind := ih (getLast?_append_solid front solid)
    rw [Text.byteLength_append, List.append_assoc, whole] at behind
    -- The range begins behind what was passed, and the marker was found with that in front of it.
    subst last
    have here : CoversMarker (front ++ c :: rest)
        ⟨front.byteLength, front.byteLength + marker.byteLength⟩ := by
      refine ⟨front, marker, after, by rw [whole], ?_, markerAt_of_marker? found⟩
      rw [Text.byteLength_append]
    exact List.forall_mem_cons.mpr ⟨here, behind⟩
  | case4 previous c rest plain unmarked ih =>
    have behind := ih (getLast?_append_solid front (List.cons_ne_nil c []))
    rw [Text.byteLength_append, List.append_assoc] at behind
    exact behind

/-- The ranges of markers come one behind the other, and none begins in front of the offset. -/
theorem markerRanges_ordered (offset : Nat) (items : List BindItem) :
    (∀ range ∈ markerRanges offset items, offset ≤ range.start) ∧
      (markerRanges offset items).Pairwise fun range next => range.stop ≤ next.start := by
  -- The offset grows with every stretch, and a range begins at the offset of its stretch.
  induction items generalizing offset with
  | nil => exact ⟨List.forall_mem_nil _, .nil⟩
  | cons item items ih =>
    obtain ⟨behind, ordered⟩ := ih (offset + item.text.byteLength)
    have further : ∀ range ∈ markerRanges (offset + item.text.byteLength) items,
        offset ≤ range.start := by
      intro range member
      have place := behind range member
      omega
    rcases sort : item.found? with _ | marker
    · rw [(BindItem.passed sort items).2.1]
      exact ⟨further, ordered⟩
    · cases item with
      | literal piece => cases sort
      | plain c => cases sort
      | marker text =>
        -- All other ranges begin behind the end of this one.
        exact ⟨List.forall_mem_cons.mpr ⟨Nat.le_refl _, further⟩, .cons behind ordered⟩

/-- A marker is not empty. -/
theorem MarkerAt.solid {before marker after : Text} (marked : MarkerAt before marker after) :
    marker ≠ [] := by
  -- Every form begins with a sign of its own.
  cases marked with
  | named => exact List.cons_ne_nil _ _
  | braced => exact List.cons_ne_nil _ _
  | tagged => exact List.cons_ne_nil _ _
  | enclosed => exact List.cons_ne_nil _ _

/-- A text can be cut at a range that covers a marker. -/
theorem CoversMarker.usable {sql : Text} {range : ByteRange} (covers : CoversMarker sql range)
    {offset : Nat} (behind : offset ≤ range.start) : range.Usable sql offset := by
  -- A marker is a part of its text, and takes at least one byte.
  obtain ⟨before, marker, after, rfl, rfl, marked⟩ := covers
  have bytes := Text.byteLength_pos marked.solid
  refine ⟨behind, ?_, Text.mem_boundaries_part before marker after⟩
  simp only [Text.byteLength_append]
  omega

/-- Ranges that can be used and come one behind the other are all selected. -/
theorem select_eq_self {sql : Text} {ranges : List ByteRange} {offset : Nat}
    (usable : ∀ range ∈ ranges, range.Usable sql offset)
    (ordered : ranges.Pairwise fun range next => range.stop ≤ next.start) :
    select sql offset ranges = ranges := by
  induction ranges generalizing offset with
  | nil => rfl
  | cons range ranges ih =>
    obtain ⟨first, others⟩ := List.forall_mem_cons.mp usable
    obtain ⟨behind, ordered⟩ := List.pairwise_cons.mp ordered
    -- The ranges that follow can be used behind this one too.
    have next : ∀ other ∈ ranges, other.Usable sql range.stop :=
      fun other member => ⟨behind other member, (others other member).2⟩
    rw [select, if_pos first, ih next ordered]

/-- The markers of a text, each where it was found. -/
theorem markers_placed (sql : Text) :
    (markers sql).Pairwise (fun range next => range.stop ≤ next.start) ∧
      (∀ range ∈ markers sql, CoversMarker sql range) ∧
      select sql 0 (markers sql) = markers sql := by
  -- The search on bytes comes upon the markers among the stretches.
  have covers := @coversMarker_of_mem none [] sql rfl
  have ordered := (markerRanges_ordered 0 (bindItems none sql)).2
  rw [markers_eq]
  refine ⟨ordered, covers, select_eq_self ?_ ordered⟩
  intro range member
  exact (covers range member).usable (Nat.zero_le _)

/--
Only markers are found in a text, and all that are found are hidden.

The ranges come one behind the other.
Each begins and ends between two characters, and covers a marker in one of the five forms.
Where markers are hidden they are those that the ranges cover, in the same order and by their
numbers.
-/
theorem markers_wellFormed (sql : Text) :
    (markers sql).Pairwise (fun range next => range.stop ≤ next.start) ∧
    (∀ range ∈ markers sql, range.start < range.stop ∧
      range.start ∈ sql.boundaries ∧ range.stop ∈ sql.boundaries ∧
      ∃ before marker after, sql = before ++ (marker ++ after) ∧
        range = ⟨before.byteLength, (before ++ marker).byteLength⟩ ∧
        MarkerAt before marker after) ∧
    (markers sql).map sql.part? = (BindSyntax.generic.cut sql).markers.map some ∧
    (BindSyntax.generic.cut sql).codec.size = (markers sql).length ∧
    ∀ place, (BindSyntax.generic.cut sql).codec.markerOf? (BindCut.code place) =
      (markers sql)[place]?.bind sql.part? := by
  obtain ⟨ordered, covers, all⟩ := markers_placed sql
  -- As all ranges are selected, the markers cut out are what they cover.
  have covered : (markers sql).map sql.part? =
      (BindSyntax.generic.cut sql).markers.map some := by
    have marked := map_part?_select [] sql (markers sql)
    rwa [List.nil_append, show select sql (Text.byteLength []) (markers sql) = _ from all] at marked
  refine ⟨ordered, ?_, covered, size_of_covered covered, markerOf?_of_covered covered⟩
  intro range member
  have here := covers range member
  obtain ⟨_, solid, starts, stops⟩ := here.usable (Nat.zero_le _)
  exact ⟨solid, starts, stops, here⟩

/-- A tag beyond ASCII behind a letter beyond ASCII: the marker is found by its bytes. -/
theorem markers_wellFormed_tag :
    (⟨2, 9⟩ : ByteRange) ∈ markers "Ä:[Ö]A1,B".toList ∧
      ∃ before marker after : Text, "Ä:[Ö]A1,B".toList = before ++ (marker ++ after) ∧
        (⟨2, 9⟩ : ByteRange) = ⟨before.byteLength, (before ++ marker).byteLength⟩ ∧
        MarkerAt before marker after := by
  -- That the range is found is computed; where it lies is the general law.
  have found : (⟨2, 9⟩ : ByteRange) ∈ markers "Ä:[Ö]A1,B".toList := by decide +kernel
  obtain ⟨_, _, _, placed⟩ := (markers_wellFormed _).2.1 _ found
  exact ⟨found, placed⟩

end SqlLayout
