import Mathlib.Data.List.Infix
import SqlLayout.Proofs.Bind.Hidden

/-!
Which ranges a text is cut at, whatever ranges a syntax finds in it.

They are selected from left to right, and a text can be cut at all that are.
-/

namespace SqlLayout

namespace Text

/-- The offsets in a text at which no character is divided, both ends included. -/
def boundaries (text : Text) : List Nat :=
  -- Each is the size of a front of the text.
  text.inits.map byteLength

/-- A cut behind a number of bytes leaves that many in front of it. -/
theorem splitBytes?_eq_some {bytes : Nat} {text front back : Text} :
    text.splitBytes? bytes = some (front, back) ↔
      text = front ++ back ∧ front.byteLength = bytes := by
  -- A cut is found by counting bytes, and a front with that many is what is cut off.
  constructor
  · intro cut
    refine ⟨(splitBytes?_append cut).symm, ?_⟩
    -- Each character that goes to the front takes its bytes off the number.
    fun_induction splitBytes? bytes text generalizing front back with
    | case1 text => cases cut; rfl
    | case2 => cases cut
    | case3 bytes c rest fits ih =>
      obtain ⟨⟨front', back'⟩, inner, same⟩ := Option.map_eq_some_iff.mp cut
      cases same
      have size := ih inner
      simp only [byteLength]
      omega
    | case4 => cases cut
  · rintro ⟨rfl, rfl⟩
    exact splitBytes?_byteLength front back

/-- A text can be cut at its boundaries. -/
theorem mem_boundaries {offset : Nat} {text : Text} :
    offset ∈ text.boundaries ↔ ∃ front back, text = front ++ back ∧ front.byteLength = offset := by
  -- A front of the text is what leaves the rest of it behind.
  rw [boundaries, List.mem_map]
  constructor
  · rintro ⟨front, among, size⟩
    obtain ⟨back, whole⟩ := (List.mem_inits _ _).mp among
    exact ⟨front, back, whole.symm, size⟩
  · rintro ⟨front, back, rfl, size⟩
    exact ⟨front, (List.mem_inits _ _).mpr (List.prefix_append front back), size⟩

/-- A text has no cut exactly where it has no boundary. -/
theorem splitBytes?_eq_none {bytes : Nat} {text : Text} :
    text.splitBytes? bytes = none ↔ bytes ∉ text.boundaries := by
  -- the text divides at its boundaries and nowhere else
  rw [mem_boundaries]
  constructor
  · rintro none ⟨front, back, split⟩
    rw [splitBytes?_eq_some.mpr split] at none
    cases none
  · intro divided
    rw [Option.eq_none_iff_forall_ne_some]
    intro halves cut
    exact divided ⟨halves.1, halves.2, splitBytes?_eq_some.mp cut⟩

/-- A part of a text begins and ends at boundaries. -/
theorem mem_boundaries_part (front part back : Text) :
    front.byteLength ∈ (front ++ (part ++ back)).boundaries ∧
      (front ++ part).byteLength ∈ (front ++ (part ++ back)).boundaries := by
  -- The text can be cut in front of the part and behind it.
  rw [mem_boundaries, mem_boundaries]
  refine ⟨⟨front, part ++ back, rfl, rfl⟩, ⟨front ++ part, back, ?_, rfl⟩⟩
  rw [List.append_assoc]

/-- Behind a front the boundaries are those of what follows it. -/
theorem mem_boundaries_append {front text : Text} {bytes : Nat} :
    front.byteLength + bytes ∈ (front ++ text).boundaries ↔ bytes ∈ text.boundaries := by
  rw [mem_boundaries, mem_boundaries]
  constructor
  · rintro ⟨start, back, whole, size⟩
    -- Of two fronts of one text the one with fewer bytes is a front of the other.
    rcases List.append_eq_append_iff.mp whole with ⟨more, rfl, rest⟩ | ⟨more, rfl, rest⟩
    · rw [byteLength_append] at size
      exact ⟨more, back, rest, by omega⟩
    · rw [byteLength_append] at size
      have none : bytes = 0 := by omega
      exact ⟨[], text, rfl, none.symm⟩
  · rintro ⟨start, back, rfl, size⟩
    exact ⟨front ++ start, back, by rw [List.append_assoc], by rw [byteLength_append, size]⟩

/-- The part of a text that a range covers; there is none for a range that runs backwards. -/
def part? (text : Text) (range : ByteRange) : Option Text :=
  -- Both ends have to be boundaries.
  if range.start ≤ range.stop then text.slice? range else none

/-- What a range covers stands between the offsets of the range. -/
theorem part?_append (front part back : Text) :
    (front ++ (part ++ back)).part? ⟨front.byteLength, (front ++ part).byteLength⟩ =
      some part := by
  -- The range runs forwards by the size of the part.
  rw [byteLength_append, part?, if_pos (Nat.le_add_right _ _)]
  exact slice?_append front part back

/-- There is a part of a text only between two of its boundaries. -/
theorem boundaries_of_part? {text part : Text} {range : ByteRange}
    (found : text.part? range = some part) :
    range.start ∈ text.boundaries ∧ range.stop ∈ text.boundaries := by
  unfold part? at found
  split at found
  · rename_i forward
    obtain ⟨⟨front, rest⟩, first, found⟩ := Option.bind_eq_some_iff.mp found
    obtain ⟨⟨part, back⟩, second, _⟩ := Option.map_eq_some_iff.mp found
    obtain ⟨rfl, begins⟩ := splitBytes?_eq_some.mp first
    obtain ⟨rfl, size⟩ := splitBytes?_eq_some.mp second
    -- The part was cut off between its two ends.
    have ends : range.stop = (front ++ part).byteLength := by
      rw [byteLength_append]
      omega
    rw [← begins, ends]
    exact mem_boundaries_part front part back
  · cases found

end Text

/-- A range that a text can be cut at behind an offset. -/
def ByteRange.Usable (sql : Text) (offset : Nat) (range : ByteRange) : Prop :=
  offset ≤ range.start ∧ range.start < range.stop ∧
    range.start ∈ sql.boundaries ∧ range.stop ∈ sql.boundaries

instance (sql : Text) (offset : Nat) (range : ByteRange) :
    Decidable (range.Usable sql offset) :=
  inferInstanceAs (Decidable (_ ∧ _))

/--
The ranges selected from left to right, the first of them behind an offset.

Every range that can be used is taken, and the next one has to begin behind it.
-/
def select (sql : Text) : (offset : Nat) → (ranges : List ByteRange) → List ByteRange
  | _, [] => []
  | offset, range :: ranges =>
    if range.Usable sql offset then range :: select sql range.stop ranges
    else select sql offset ranges

/-- The ranges between ranges, from an offset to the end of a text of some size. -/
def gaps : (offset : Nat) → (ranges : List ByteRange) → (size : Nat) → List ByteRange
  | offset, [], size => [⟨offset, size⟩]
  | offset, range :: ranges, size => ⟨offset, range.start⟩ :: gaps range.stop ranges size

/-- Texts taken by turns from two lists, as long as there are any. -/
def weave : (kept put : List Text) → Text
  | [], put => put.flatten
  | kept, [] => kept.flatten
  | before :: kept, text :: put => before ++ text ++ weave kept put

/-- What a cut leaves as it is: the text in front of each marker, and the text behind the last. -/
def BindCut.kept (cut : BindCut) : List Text :=
  cut.segments.map Prod.fst ++ [cut.tail]

/--
What one range comes to, in front of a text that stands behind the last range used.

It is passed over, or a marker is cut out at its two ends.
-/
theorem cutAt_cons (front text : Text) (range : ByteRange) (ranges : List ByteRange) :
    (¬range.Usable (front ++ text) front.byteLength ∧
      cutAt front.byteLength (range :: ranges) text = cutAt front.byteLength ranges text) ∨
    (range.Usable (front ++ text) front.byteLength ∧ ∃ before marker rest,
      text = before ++ (marker ++ rest) ∧
      range = ⟨(front ++ before).byteLength, (front ++ before ++ marker).byteLength⟩ ∧
      cutAt front.byteLength (range :: ranges) text =
        (cutAt (front ++ before ++ marker).byteLength ranges rest).cons before marker) := by
  -- The range is tried in three steps, and any of them may pass it over.
  rw [cutAt]
  split
  · -- The range begins too early or is empty.
    rename_i skipped
    refine .inl ⟨?_, rfl⟩
    rintro ⟨behind, solid, _⟩
    omega
  · rename_i fits
    have start : front.byteLength + (range.start - front.byteLength) = range.start := by omega
    rcases begins : text.splitBytes? (range.start - front.byteLength) with _ | ⟨before, rest⟩
    · -- The range begins inside a character or behind the end.
      refine .inl ⟨?_, rfl⟩
      rintro ⟨_, _, boundary, _⟩
      rw [← start, Text.mem_boundaries_append] at boundary
      exact Text.splitBytes?_eq_none.mp begins boundary
    · obtain ⟨rfl, size⟩ := Text.splitBytes?_eq_some.mp begins
      have start : range.start = (front ++ before).byteLength := by
        rw [Text.byteLength_append]
        omega
      have stop : range.stop = (front ++ before).byteLength + (range.stop - range.start) := by
        omega
      rcases ends : rest.splitBytes? (range.stop - range.start) with _ | ⟨marker, after⟩
      · -- The range ends inside a character or behind the end.
        refine .inl ⟨?_, by simp only [ends]⟩
        rintro ⟨_, _, _, boundary⟩
        rw [stop, ← List.append_assoc, Text.mem_boundaries_append] at boundary
        exact Text.splitBytes?_eq_none.mp ends boundary
      · obtain ⟨rfl, length⟩ := Text.splitBytes?_eq_some.mp ends
        have stop : range.stop = (front ++ before ++ marker).byteLength := by
          rw [Text.byteLength_append]
          omega
        have bounds := Text.mem_boundaries_part (front ++ before) marker after
        rw [← start, ← stop, List.append_assoc front] at bounds
        refine .inr ⟨⟨by omega, by omega, bounds⟩, before, marker, after, rfl, ?_, ?_⟩
        · rw [← start, ← stop]
        · simp only [ends, ← stop]

/--
What holds of a text without ranges, and goes over to a text with one more range in front, holds of
the cut at the ranges that are selected.
-/
theorem cutAt_select {holds : (front text : Text) → List ByteRange → BindCut → Prop}
    (last : ∀ front text, holds front text [] ⟨[], text⟩)
    (used : ∀ front before marker rest ranges cut,
      holds (front ++ before ++ marker) rest ranges cut →
      holds front (before ++ (marker ++ rest))
        (⟨(front ++ before).byteLength, (front ++ before ++ marker).byteLength⟩ :: ranges)
        (cut.cons before marker))
    (front text : Text) (ranges : List ByteRange) :
    holds front text (select (front ++ text) front.byteLength ranges)
      (cutAt front.byteLength ranges text) := by
  -- The induction is on the ranges, those passed over included.
  induction ranges generalizing front text with
  | nil => exact last front text
  | cons range ranges ih =>
    rcases cutAt_cons front text range ranges with
      ⟨skipped, same⟩ | ⟨usable, before, marker, rest, rfl, rfl, same⟩
    · rw [select, if_neg skipped, same]
      exact ih front text
    · -- Behind the range the text goes on with the marker in its front.
      have whole : front ++ before ++ marker ++ rest = front ++ (before ++ (marker ++ rest)) := by
        simp only [List.append_assoc]
      have behind := ih (front ++ before ++ marker) rest
      rw [whole] at behind
      rw [select, if_pos usable, same]
      exact used front before marker rest _ _ behind

/-- The markers that are cut out are the parts of the text that the selected ranges cover. -/
theorem map_part?_select (front text : Text) (ranges : List ByteRange) :
    (select (front ++ text) front.byteLength ranges).map (front ++ text).part? =
      (cutAt front.byteLength ranges text).markers.map some := by
  refine @cutAt_select (fun front text ranges cut =>
    ranges.map (front ++ text).part? = cut.markers.map some) ?_ ?_ front text ranges
  · intro front text
    rfl
  · -- The first range covers the first marker.
    intro front before marker rest ranges cut behind
    have here := Text.part?_append (front ++ before) marker rest
    rw [List.append_assoc (front ++ before), List.append_assoc front] at behind
    rw [List.append_assoc front] at here
    rw [List.map_cons, here, behind]
    rfl

/-- What is kept are the parts of the text that the ranges between the selected ones cover. -/
theorem map_part?_gaps (front text : Text) (ranges : List ByteRange) :
    (gaps front.byteLength (select (front ++ text) front.byteLength ranges)
        (front ++ text).byteLength).map (front ++ text).part? =
      (cutAt front.byteLength ranges text).kept.map some := by
  refine @cutAt_select (fun front text ranges cut =>
    (gaps front.byteLength ranges (front ++ text).byteLength).map (front ++ text).part? =
      cut.kept.map some) ?_ ?_ front text ranges
  · -- Without a range the whole text is kept.
    intro front text
    have here := Text.part?_append front text []
    rw [List.append_nil] at here
    exact congrArg ([·]) here
  · -- The first range between covers the text in front of the first marker.
    intro front before marker rest ranges cut behind
    have here := Text.part?_append front before (marker ++ rest)
    rw [List.append_assoc (front ++ before), List.append_assoc front] at behind
    rw [gaps, List.map_cons, here, behind]
    rfl

/-- With its markers in their places a cut makes up the text. -/
theorem weave_markers_cutAt (front text : Text) (ranges : List ByteRange) :
    weave (cutAt front.byteLength ranges text).kept (cutAt front.byteLength ranges text).markers =
      text := by
  -- by induction over the cut: each marker goes back between the texts around it
  refine @cutAt_select (fun _ text _ cut => weave cut.kept cut.markers = text) ?_ ?_
    front text ranges
  · intro front text
    exact List.append_nil text
  · intro front before marker rest ranges cut behind
    refine (congrArg (before ++ marker ++ ·) behind).trans ?_
    rw [List.append_assoc]

/-- With made-up names in the places of its markers a cut is the encoded text. -/
theorem weave_codes (segments : List (Text × Text)) (tail : Text) (number : Nat) :
    weave (BindCut.kept ⟨segments, tail⟩)
        ((List.range' number segments.length).map BindCut.code) =
      BindCut.encodeFrom number segments tail := by
  -- Both put the next number behind the text of each segment.
  induction segments generalizing number with
  | nil => exact List.append_nil tail
  | cons segment segments ih =>
    exact congrArg (segment.1 ++ BindCut.code number ++ ·) (ih (number + 1))

namespace Codec

/-- A codec with a marker put under a made-up name, in the place of any that was there. -/
def insert (codec : Codec) (name marker : Text) : Codec :=
  -- No name has two entries.
  ⟨codec.entries.filter (fun entry => entry.1 ≠ name) ++ [(name, marker)]⟩

@[simp]
theorem size_ofMarkers (found : List Text) : (ofMarkers found).size = found.length := by
  simp [size, ofMarkers]

/-- The name with the number of the markers so far is not taken. -/
theorem insert_ofMarkers (found : List Text) (marker : Text) :
    (ofMarkers found).insert (BindCut.code found.length) marker =
      ofMarkers (found ++ [marker]) := by
  -- All numbers given so far are smaller.
  have fresh : ∀ entry ∈ (ofMarkers found).entries, entry.1 ≠ BindCut.code found.length := by
    intro entry member same
    obtain ⟨⟨text, number⟩, place, rfl⟩ := List.mem_map.mp member
    have below := List.snd_lt_of_mem_zipIdx place
    have number := BindCut.code_injective same
    omega
  -- So nothing is replaced, and the codec grows by one entry.
  have kept := List.filter_eq_self.mpr fun entry member => decide_eq_true (fresh entry member)
  rw [insert, kept]
  simp [ofMarkers, List.zipIdx_append]

/-- A made-up name is known by its number. -/
theorem markerOf?_code (found : List Text) (place : Nat) :
    (ofMarkers found).markerOf? (BindCut.code place) = found[place]? := by
  -- No other number has the same name.
  ext marker
  rw [markerOf?_eq_some]
  constructor
  · rintro ⟨other, present, same⟩
    rwa [BindCut.code_injective same]
  · intro present
    exact ⟨place, present, rfl⟩

/-- No name is known but the made-up ones. -/
theorem markerOf?_ne_none (found : List Text) (name : Text) :
    (ofMarkers found).markerOf? name ≠ none ↔
      ∃ place < found.length, name = BindCut.code place := by
  -- the names known are the replacements of the markers there are
  rw [Option.ne_none_iff_exists']
  constructor
  · rintro ⟨marker, known⟩
    obtain ⟨place, present, same⟩ := markerOf?_eq_some.mp known
    exact ⟨place, (List.getElem?_eq_some_iff.mp present).1, same⟩
  · rintro ⟨place, within, rfl⟩
    exact ⟨found[place], by rw [markerOf?_code, List.getElem?_eq_getElem within]⟩

end Codec

section Covered

variable {sql : Text} {ranges : List ByteRange} {cut : BindCut}
  (covered : ranges.map sql.part? = cut.markers.map some)
include covered

/-- There are as many markers as ranges that cover them. -/
theorem size_of_covered : cut.codec.size = ranges.length := by
  -- As many markers were numbered as ranges were used.
  have count := congrArg List.length covered
  rw [List.length_map, List.length_map] at count
  exact (Codec.size_ofMarkers _).trans count.symm

/-- The made-up name with a number stands for what the range with that number covers. -/
theorem markerOf?_of_covered (place : Nat) :
    cut.codec.markerOf? (BindCut.code place) = ranges[place]?.bind sql.part? := by
  have here := congrArg (fun texts => texts[place]?) covered
  simp only [List.getElem?_map] at here
  refine (Codec.markerOf?_code _ place).trans ?_
  -- There is a marker with the number exactly if there is a range with it.
  rcases found : ranges[place]? with _ | range
  · rw [found] at here
    exact Option.map_eq_none_iff.mp here.symm
  · rw [found] at here
    obtain ⟨marker, present, same⟩ := Option.map_eq_some_iff.mp here.symm
    exact present.trans same

end Covered

/-- Where the masking of a text stands, with offsets into the whole text. -/
structure Masking where
  /-- The offset behind the last range used. -/
  last : Nat
  /-- The encoded text so far. -/
  out : Text
  /-- The markers so far. -/
  codec : Codec

namespace Masking

/--
One range of a masking, with its parts cut from the whole text.

A marker that is no part of the text is passed over.
There is no outcome if the marker is one and the text in front of it is not.
-/
def step (sql : Text) (state : Masking) (range : ByteRange) : Option Masking :=
  if range.start < state.last ∨ range.stop ≤ range.start then some state
  else
    match sql.part? range with
    | none => some state
    | some marker =>
      -- The number of the markers so far makes the next name.
      let name := BindCut.code state.codec.size
      (sql.part? ⟨state.last, range.start⟩).map fun before =>
        ⟨range.stop, state.out ++ before ++ name, state.codec.insert name marker⟩

/-- The masking of a text from some state on, with all that is left put behind the last marker. -/
def finish (sql : Text) (state : Masking) (ranges : List ByteRange) : Option (Codec × Text) :=
  -- There is no outcome either if what is left is no part of the text.
  (ranges.foldlM (step sql) state).bind fun final =>
    (sql.part? ⟨final.last, sql.byteLength⟩).map fun tail => (final.codec, final.out ++ tail)

/-- The masking of a whole text. -/
def run (sql : Text) (ranges : List ByteRange) : Option (Codec × Text) :=
  -- It begins at the front, with nothing written and no marker found.
  finish sql ⟨0, [], ⟨[]⟩⟩ ranges

/-- One range is passed over, or used with the parts that it covers and leaves in front of it. -/
theorem step_eq (front text out : Text) (found : List Text) (range : ByteRange)
    (ranges : List ByteRange) :
    (step (front ++ text) ⟨front.byteLength, out, .ofMarkers found⟩ range =
        some ⟨front.byteLength, out, .ofMarkers found⟩ ∧
      cutAt front.byteLength (range :: ranges) text = cutAt front.byteLength ranges text) ∨
    ∃ before marker rest, text = before ++ (marker ++ rest) ∧
      step (front ++ text) ⟨front.byteLength, out, .ofMarkers found⟩ range =
        some ⟨(front ++ before ++ marker).byteLength,
          out ++ before ++ BindCut.code found.length, .ofMarkers (found ++ [marker])⟩ ∧
      cutAt front.byteLength (range :: ranges) text =
        (cutAt (front ++ before ++ marker).byteLength ranges rest).cons before marker := by
  -- The step asks for the same two parts that the cut is made at.
  unfold step
  rcases cutAt_cons front text range ranges with
    ⟨skipped, same⟩ | ⟨usable, before, marker, rest, rfl, bounds, same⟩
  · refine .inl ⟨?_, same⟩
    split
    · rfl
    · rename_i fits
      simp only at fits
      -- A range in the right place is skipped only because the text has no such part.
      have none : (front ++ text).part? range = none := by
        rw [Option.eq_none_iff_forall_ne_some]
        intro marker covers
        exact skipped ⟨by omega, by omega, Text.boundaries_of_part? covers⟩
      simp only [none]
  · refine .inr ⟨before, marker, rest, rfl, ?_, same⟩
    have fits : ¬(range.start < front.byteLength ∨ range.stop ≤ range.start) := by
      have order := usable.2.1
      have behind := usable.1
      omega
    -- Both parts that are needed are there.
    have marked := Text.part?_append (front ++ before) marker rest
    have ahead := Text.part?_append front before (marker ++ rest)
    subst bounds
    simp only [List.append_assoc] at marked ahead fits ⊢
    rw [if_neg fits]
    simp only [marked, ahead, Option.map_some, Codec.size_ofMarkers, Codec.insert_ofMarkers]

/-- From any state on, a masking comes to the cut of what is left. -/
theorem finish_eq (front text out : Text) (found : List Text) (ranges : List ByteRange) :
    finish (front ++ text) ⟨front.byteLength, out, .ofMarkers found⟩ ranges =
      some (.ofMarkers (found ++ (cutAt front.byteLength ranges text).markers),
        out ++ BindCut.encodeFrom found.length (cutAt front.byteLength ranges text).segments
          (cutAt front.byteLength ranges text).tail) := by
  -- What stands in front of the text is all that the state still knows of it.
  induction ranges generalizing front text out found with
  | nil =>
    have last := Text.part?_append front text []
    rw [List.append_nil] at last
    simp [finish, last, cutAt, BindCut.markers, BindCut.encodeFrom]
  | cons range ranges ih =>
    rcases step_eq front text out found range ranges with
      ⟨passed, same⟩ | ⟨before, marker, rest, rfl, used, same⟩
    · have behind := ih front text out found
      rw [same, ← behind, finish, List.foldlM_cons, passed]
      rfl
    · have behind := ih (front ++ before ++ marker) rest
        (out ++ before ++ BindCut.code found.length) (found ++ [marker])
      rw [same, finish, List.foldlM_cons, used]
      simp only [List.append_assoc] at behind ⊢
      refine behind.trans ?_
      simp [BindCut.cons, BindCut.markers, BindCut.encodeFrom]

/-- The masking of a whole text comes to its cut, and no part that it needs is missing. -/
theorem run_eq (style : BindSyntax) (sql : Text) :
    run sql (style.find sql) = some ((style.cut sql).codec, (style.cut sql).encoded) :=
  -- Nothing stands in front of the whole text, and no marker has been found there.
  finish_eq [] sql [] [] (style.find sql)

end Masking

/--
Hiding markers is exact, whatever ranges a syntax finds.

Every part of the text that it takes can be taken, so that the masking has an outcome.
The markers are the parts that the selected ranges cover, and what is kept are the parts between
them.
The made-up names in the places of the markers give the encoded text, and the markers give the text.
A marker is known by its own made-up name, and nothing else is known by any name.
-/
theorem encode_exact (style : BindSyntax) (sql : Text) :
    Masking.run sql (style.find sql) = some ((style.cut sql).codec, (style.cut sql).encoded) ∧
    (select sql 0 (style.find sql)).map sql.part? = (style.cut sql).markers.map some ∧
    (gaps 0 (select sql 0 (style.find sql)) sql.byteLength).map sql.part? =
      (style.cut sql).kept.map some ∧
    (style.cut sql).encoded = weave (style.cut sql).kept
      ((List.range (style.cut sql).codec.size).map BindCut.code) ∧
    sql = weave (style.cut sql).kept (style.cut sql).markers ∧
    (style.cut sql).codec.size = (select sql 0 (style.find sql)).length ∧
    (∀ place, (style.cut sql).codec.markerOf? (BindCut.code place) =
      (select sql 0 (style.find sql))[place]?.bind sql.part?) ∧
    ∀ name, (style.cut sql).codec.markerOf? name ≠ none ↔
      ∃ place < (style.cut sql).codec.size, name = BindCut.code place := by
  have marked := map_part?_select [] sql (style.find sql)
  have kept := map_part?_gaps [] sql (style.find sql)
  -- There is one marker for each segment of the cut.
  have size : (style.cut sql).codec.size = (style.cut sql).markers.length :=
    Codec.size_ofMarkers _
  have number : (style.cut sql).markers.length = (style.cut sql).segments.length :=
    List.length_map _
  refine ⟨Masking.run_eq style sql, marked, kept, ?_, ?_, size_of_covered marked,
    markerOf?_of_covered marked, ?_⟩
  · rw [size, number, List.range_eq_range']
    exact (weave_codes _ _ 0).symm
  · exact (weave_markers_cutAt [] sql (style.find sql)).symm
  · rw [size]
    exact Codec.markerOf?_ne_none _

/-- Of ranges that overlap, run backwards, divide a character or leave the text none is used. -/
example : (BindSyntax.cut
    ⟨"ranges", fun _ => [⟨1, 3⟩, ⟨2, 5⟩, ⟨5, 4⟩, ⟨3, 4⟩, ⟨3, 5⟩, ⟨5, 90⟩]⟩
    "A:Bß,C".toList).encoded = "A___BIND0___BIND1,C".toList := by
  decide +kernel

end SqlLayout
