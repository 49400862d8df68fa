import SqlLayout.Parse
import SqlLayout.Proofs.Bind.Bytes

/-! Cutting a text at its markers: the cut by byte ranges follows the stretches of the text. -/

namespace SqlLayout

namespace Text

/-- Texts one behind the other take the bytes of both. -/
theorem byteLength_append (front back : Text) :
    (front ++ back).byteLength = front.byteLength + back.byteLength := by
  induction front with
  | nil => simp [byteLength]
  | cons c front ih =>
    -- The first character counts once on either side.
    simp only [List.cons_append, byteLength, ih]
    omega

/-- A text cut behind the bytes of its front comes to the front and the rest. -/
theorem splitBytes?_byteLength (front back : Text) :
    (front ++ back).splitBytes? front.byteLength = some (front, back) := by
  induction front with
  | nil => simp [byteLength, splitBytes?]
  | cons c front ih =>
    -- Every character takes at least one byte, so the cut goes on behind it.
    have size := c.utf8Size_pos
    obtain ⟨less, bytes⟩ : ∃ less, c.utf8Size + byteLength front = less + 1 :=
      ⟨c.utf8Size + byteLength front - 1, by omega⟩
    have fits : c.utf8Size ≤ less + 1 := by omega
    have left : less + 1 - c.utf8Size = byteLength front := by omega
    rw [byteLength, bytes, List.cons_append, splitBytes?, if_pos fits, left, ih]
    rfl

/-- A cut behind at least one byte leaves something in front of it. -/
theorem splitBytes?_front_ne_nil {bytes : Nat} {text front back : Text} (positive : 0 < bytes)
    (cut : text.splitBytes? bytes = some (front, back)) : front ≠ [] := by
  -- The first character goes to the front half as a whole.
  obtain ⟨bytes, rfl⟩ := Nat.exists_eq_add_of_lt positive
  cases text with
  | nil => simp [splitBytes?] at cut
  | cons c rest =>
    simp only [Nat.zero_add, splitBytes?] at cut
    split at cut
    · obtain ⟨⟨_, _⟩, _, same⟩ := Option.map_eq_some_iff.mp cut
      cases same
      exact List.cons_ne_nil c _
    · cases cut

/-- A text that is not empty takes bytes. -/
theorem byteLength_pos {text : Text} (solid : text ≠ []) : 0 < text.byteLength := by
  -- Every character takes at least one byte.
  obtain ⟨c, rest, rfl⟩ := List.exists_cons_of_ne_nil solid
  have size := c.utf8Size_pos
  simp only [byteLength]
  omega

end Text

/-- Whatever the ranges are, a text is cut at no empty marker. -/
theorem markers_cutAt_ne_nil (offset : Nat) (ranges : List ByteRange) (text : Text) :
    ∀ marker ∈ (cutAt offset ranges text).markers, marker ≠ [] := by
  -- An empty range is skipped, and any other one holds at least one byte.
  fun_induction cutAt offset ranges text with
  | case1 => exact List.forall_mem_nil _
  | case2 offset range ranges text skipped ih => exact ih
  | case3 offset range ranges text used outside ih => exact ih
  | case4 offset range ranges text used before rest front outside ih => exact ih
  | case5 offset range ranges text used before rest front marker after found ih =>
    have positive : 0 < range.stop - range.start := by omega
    exact List.forall_mem_cons.mpr ⟨Text.splitBytes?_front_ne_nil positive found, ih⟩

/-- The stretches of a text make up the text. -/
theorem flatMap_bindItems (previous : Option Char) (text : Text) :
    (bindItems previous text).flatMap BindItem.text = text := by
  -- What the search takes off the front is the text of one item.
  fun_induction bindItems previous text with
  | case1 => rfl
  | case2 previous c rest piece after found ih =>
    rw [List.flatMap_cons, ih]
    exact literal?_append found
  | case3 previous c rest plain marker after found ih =>
    rw [List.flatMap_cons, ih]
    exact (marker?_append found).2
  | case4 previous c rest plain unmarked ih =>
    rw [List.flatMap_cons, ih]
    rfl

/-- The marker that a stretch is, if it is one. -/
def BindItem.found? : BindItem → Option Text
  | marker text => some text
  | _ => none

/-- The markers among stretches. -/
def foundIn (items : List BindItem) : List Text :=
  items.filterMap BindItem.found?

/-- What is found among the stretches of a text are markers. -/
theorem isMarker_of_foundIn {previous : Option Char} {text : Text} :
    ∀ marker ∈ foundIn (bindItems previous text), IsMarker marker := by
  unfold foundIn
  fun_induction bindItems previous text with
  | case1 => exact List.forall_mem_nil _
  | case2 previous c rest piece after found ih => exact ih
  | case3 previous c rest plain marker after found ih =>
    -- The marker at the front was read as one, and the others come behind it.
    exact List.forall_mem_cons.mpr ⟨isMarker_of_marker? found, ih⟩
  | case4 previous c rest plain unmarked ih => exact ih

/-- The text of stretches with made-up names for the markers, counted from a number. -/
def encodeItems : (number : Nat) → List BindItem → Text
  | _, [] => []
  | number, .marker _ :: items => BindCut.code number ++ encodeItems (number + 1) items
  -- Every other stretch is kept as it is.
  | number, item :: items => item.text ++ encodeItems number items

/-- A cut with a text put in front, which comes before the first marker. -/
def BindCut.push (text : Text) : BindCut → BindCut
  | ⟨[], tail⟩ => ⟨[], text ++ tail⟩
  | ⟨(before, marker) :: segments, tail⟩ => ⟨(text ++ before, marker) :: segments, tail⟩

/-- Stretches cut at the markers among them. -/
def cutOf : List BindItem → BindCut
  | [] => ⟨[], []⟩
  | .marker marker :: items => (cutOf items).cons [] marker
  -- Any other stretch stands in front of the next marker.
  | item :: items => (cutOf items).push item.text

namespace BindCut

@[simp]
theorem push_nil (cut : BindCut) : cut.push [] = cut := by
  -- It is put before the first marker or, with no marker, into the tail.
  obtain ⟨_ | ⟨⟨before, marker⟩, segments⟩, tail⟩ := cut
  · rfl
  · rfl

/-- Texts put in front one after the other are put there as one. -/
theorem push_push (cut : BindCut) (front back : Text) :
    (cut.push back).push front = cut.push (front ++ back) := by
  -- Both go to the same place, the second in front of the first.
  obtain ⟨_ | ⟨⟨before, marker⟩, segments⟩, tail⟩ := cut
  · simp [push]
  · simp [push]

/-- A text in front brings no marker. -/
theorem markers_push (cut : BindCut) (text : Text) : (cut.push text).markers = cut.markers := by
  -- Only the text in front of the first marker grows.
  obtain ⟨_ | ⟨⟨before, marker⟩, segments⟩, tail⟩ := cut
  · rfl
  · rfl

/-- A text in front is kept in front when the markers are hidden. -/
theorem encodeFrom_push (cut : BindCut) (text : Text) (number : Nat) :
    encodeFrom number (cut.push text).segments (cut.push text).tail =
      text ++ encodeFrom number cut.segments cut.tail := by
  -- Whatever text stands before the first marker is encoded as it is.
  obtain ⟨_ | ⟨⟨before, marker⟩, segments⟩, tail⟩ := cut
  · rfl
  · simp [push, encodeFrom]

end BindCut

/-- A stretch that is no marker only moves the offset on. -/
theorem BindItem.passed {item : BindItem} (plain : item.found? = none) (items : List BindItem) :
    foundIn (item :: items) = foundIn items ∧
    (∀ offset, markerRanges offset (item :: items) =
      markerRanges (offset + item.text.byteLength) items) ∧
    (∀ number, encodeItems number (item :: items) = item.text ++ encodeItems number items) ∧
    cutOf (item :: items) = (cutOf items).push item.text := by
  -- A literal and a plain character are passed alike, each with its own text.
  cases item with
  | literal piece => exact ⟨rfl, fun _ => rfl, fun _ => rfl, rfl⟩
  | marker text => cases plain
  | plain c => exact ⟨rfl, fun _ => rfl, fun _ => rfl, rfl⟩

/-- The markers of a cut are those among the stretches. -/
theorem markers_cutOf (items : List BindItem) : (cutOf items).markers = foundIn items := by
  -- Only a marker begins a segment, and the other items are pushed in front.
  induction items with
  | nil => rfl
  | cons item items ih =>
    cases item with
    | literal piece => exact (BindCut.markers_push _ _).trans ih
    | marker text => exact congrArg (text :: ·) ih
    | plain c => exact (BindCut.markers_push _ _).trans ih

/-- A cut with its markers hidden is the text of the stretches with theirs hidden. -/
theorem encodeFrom_cutOf (number : Nat) (items : List BindItem) :
    BindCut.encodeFrom number (cutOf items).segments (cutOf items).tail =
      encodeItems number items := by
  -- Only a marker takes a number, and the other items are pushed in front.
  induction items generalizing number with
  | nil => rfl
  | cons item items ih =>
    cases item with
    | literal piece => exact (BindCut.encodeFrom_push _ _ _).trans (congrArg _ (ih number))
    | marker text => exact congrArg (BindCut.code number ++ ·) (ih (number + 1))
    | plain c => exact (BindCut.encodeFrom_push _ _ _).trans (congrArg _ (ih number))

/-- A cut made up again is the text of the stretches. -/
theorem flatten_cutOf (items : List BindItem) :
    ((cutOf items).segments.flatMap fun segment => segment.1 ++ segment.2) ++ (cutOf items).tail =
      items.flatMap BindItem.text := by
  -- a text put in front of a cut lands in its first segment, or in the tail when it has none
  have pushed : ∀ (cut : BindCut) (text : Text),
      ((cut.push text).segments.flatMap fun segment => segment.1 ++ segment.2) ++
          (cut.push text).tail =
        text ++ ((cut.segments.flatMap fun segment => segment.1 ++ segment.2) ++ cut.tail) := by
    intro cut text
    obtain ⟨_ | ⟨⟨before, marker⟩, segments⟩, tail⟩ := cut
    · rfl
    · simp [BindCut.push]
  induction items with
  | nil => rfl
  | cons item items ih =>
    cases item with
    | literal piece => exact (pushed _ _).trans (congrArg (piece.text ++ ·) ih)
    | marker text =>
      have parts : (cutOf (.marker text :: items)).segments =
          ([], text) :: (cutOf items).segments := rfl
      rw [parts, List.flatMap_cons, List.append_assoc, List.flatMap_cons, ← ih]
      rfl
    | plain c => exact (pushed _ _).trans (congrArg (c :: ·) ih)

/-- A text cut at the ranges of its markers is cut at the markers among its stretches. -/
theorem cutAt_markerRanges {items : List BindItem}
    (solid : ∀ marker ∈ foundIn items, marker ≠ []) (offset : Nat) (before : Text) :
    cutAt offset (markerRanges (offset + before.byteLength) items)
      (before ++ items.flatMap BindItem.text) = (cutOf items).push before := by
  -- The text in front grows by each stretch that is no marker, up to the next one that is.
  induction items generalizing offset before with
  | nil => rfl
  | cons item items ih =>
    rcases sort : item.found? with _ | marker
    · -- A stretch that is no marker is put behind what stands in front of it.
      obtain ⟨found, ranges, _, cut⟩ := BindItem.passed sort items
      rw [found] at solid
      have next := ih solid offset (before ++ item.text)
      rw [Text.byteLength_append, ← Nat.add_assoc, List.append_assoc] at next
      rw [ranges, List.flatMap_cons, next, cut, BindCut.push_push]
    · cases item with
      | literal piece => cases sort
      | plain c => cases sort
      | marker text =>
        cases sort
        obtain ⟨here, others⟩ := List.forall_mem_cons.mp solid
        have bytes := Text.byteLength_pos here
        have next := ih others (offset + before.byteLength + marker.byteLength) []
        -- The range begins behind the offset and holds the marker.
        have within : ¬(offset + before.byteLength < offset ∨
            offset + before.byteLength + marker.byteLength ≤ offset + before.byteLength) := by
          omega
        have start : offset + before.byteLength - offset = before.byteLength := by omega
        have stop : offset + before.byteLength + marker.byteLength - (offset + before.byteLength) =
            marker.byteLength := by omega
        rw [BindCut.push_nil] at next
        rw [List.flatMap_cons, markerRanges, cutAt, if_neg within]
        simp only [start, stop, Text.splitBytes?_byteLength, BindItem.text]
        refine (congrArg (BindCut.cons before marker) next).trans ?_
        simp [cutOf, BindCut.cons, BindCut.push]

/-- A text is cut at the markers among its stretches. -/
theorem cut_generic (sql : Text) : BindSyntax.generic.cut sql = cutOf (bindItems none sql) := by
  -- a marker opens with one of its three signs, so none is empty
  have solid : ∀ marker ∈ foundIn (bindItems none sql), marker ≠ [] := by
    intro marker member bare
    obtain ⟨c, front, _⟩ := (isMarker_of_foundIn marker member).begins
    rw [bare] at front
    cases front
  -- the ranges of the markers cut the text where the scan itself does
  have cut := cutAt_markerRanges solid 0 []
  rw [List.nil_append, flatMap_bindItems, BindCut.push_nil] at cut
  have found : BindSyntax.generic.find sql = markerRanges 0 (bindItems none sql) := markers_eq sql
  rw [BindSyntax.cut, found]
  exact cut

end SqlLayout
