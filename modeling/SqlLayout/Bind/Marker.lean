import SqlLayout.Lexing.Span

/-! Bind markers: the forms in which a statement refers to values that are supplied later. -/

namespace SqlLayout

/-- A stretch of text given by byte offsets, the end not included. -/
structure ByteRange where
  /-- The offset of the first byte. -/
  start : Nat
  /-- The offset behind the last byte. -/
  stop : Nat
  deriving DecidableEq

/-- The characters of a marker's name. -/
def isMarkerChar (c : Char) : Bool :=
  -- ASCII letters and digits, the underscore and the point.
  c.isAlphanum || c == '_' || c == '.'

/-- The characters behind which a colon begins no marker. -/
def gluesColon (c : Char) : Bool :=
  -- Behind a word a colon belongs to the word, and a doubled colon is a cast.
  c.isAlphanum || c == '_' || c == '$' || c == ':'

/--
The rest of a marker behind its colon, and what follows it.

A colon is followed by a name, by a name in braces, or by a tag in square brackets and a name.
-/
def colonMarker? : Text → Option (Text × Text)
  | '\x7b' :: rest =>
    -- Between the braces there is a name and nothing else.
    (closedBy? ['\x7d'] rest).bind fun (span, after) =>
      if span.dropLast ≠ [] ∧ span.dropLast.all isMarkerChar then some ('\x7b' :: span, after)
      else none
  | '[' :: rest =>
    (closedBy? [']'] rest).bind fun (tag, after) =>
      -- The tag may hold anything, but a name has to follow it.
      if after.takeWhile isMarkerChar = [] then none
      else some ('[' :: tag ++ after.takeWhile isMarkerChar, after.dropWhile isMarkerChar)
  | text =>
    if text.takeWhile isMarkerChar = [] then none
    else some (text.takeWhile isMarkerChar, text.dropWhile isMarkerChar)

/-- The rest of a marker behind the sign that encloses its name, and what follows it. -/
def enclosedMarker? (sign : Char) (text : Text) : Option (Text × Text) :=
  -- The same sign closes the marker right behind its name.
  if text.takeWhile isMarkerChar = [] then none
  else (Text.after? [sign] (text.dropWhile isMarkerChar)).map fun after =>
    (text.takeWhile isMarkerChar ++ [sign], after)

/-- The marker a text begins with, and what follows it, given the character in front of the text. -/
def marker? (previous : Option Char) : Text → Option (Text × Text)
  | ':' :: rest =>
    if previous.any gluesColon then none
    else (colonMarker? rest).map fun (marker, after) => (':' :: marker, after)
  | '#' :: rest => (enclosedMarker? '#' rest).map fun (marker, after) => ('#' :: marker, after)
  | '&' :: rest => (enclosedMarker? '&' rest).map fun (marker, after) => ('&' :: marker, after)
  | _ => none

/-- The rest of a colon marker and what follows it are the text that was read. -/
theorem colonMarker?_append {text marker after : Text}
    (found : colonMarker? text = some (marker, after)) : marker ++ after = text := by
  unfold colonMarker? at found
  split at found
  · -- The braces close a span that is read to its end.
    obtain ⟨⟨span, tail⟩, inner, taken⟩ := Option.bind_eq_some_iff.mp found
    simp only at taken
    split at taken
    · simp only [Option.some.injEq, Prod.mk.injEq] at taken
      obtain ⟨rfl, rfl⟩ := taken
      simpa using closedBy?_append inner
    · simp at taken
  · -- The tag is read to its end, and the name behind it as far as it goes.
    obtain ⟨⟨tag, tail⟩, inner, taken⟩ := Option.bind_eq_some_iff.mp found
    simp only at taken
    split at taken
    · simp at taken
    · simp only [Option.some.injEq, Prod.mk.injEq] at taken
      obtain ⟨rfl, rfl⟩ := taken
      simpa using closedBy?_append inner
  · split at found
    · simp at found
    · simp only [Option.some.injEq, Prod.mk.injEq] at found
      obtain ⟨rfl, rfl⟩ := found
      exact List.takeWhile_append_dropWhile

/-- The rest of an enclosed marker and what follows it are the text that was read. -/
theorem enclosedMarker?_append {sign : Char} {text marker after : Text}
    (found : enclosedMarker? sign text = some (marker, after)) : marker ++ after = text := by
  -- The name is read as far as it goes, and the closing sign stands right behind it.
  unfold enclosedMarker? at found
  split at found
  · simp at found
  · obtain ⟨tail, closing, same⟩ := Option.map_eq_some_iff.mp found
    simp only [Prod.mk.injEq] at same
    obtain ⟨rfl, rfl⟩ := same
    have closed := Text.after?_eq_some.mp closing
    rw [List.append_assoc, ← closed]
    exact List.takeWhile_append_dropWhile

/-- A marker is not empty, and with what follows it makes up the text. -/
theorem marker?_append {previous : Option Char} {text marker after : Text}
    (found : marker? previous text = some (marker, after)) :
    marker ≠ [] ∧ marker ++ after = text := by
  unfold marker? at found
  split at found
  · split at found
    · simp at found
    · obtain ⟨⟨inner, tail⟩, deeper, same⟩ := Option.map_eq_some_iff.mp found
      simp only [Prod.mk.injEq] at same
      obtain ⟨rfl, rfl⟩ := same
      exact ⟨by simp, by simpa using colonMarker?_append deeper⟩
  · obtain ⟨⟨inner, tail⟩, deeper, same⟩ := Option.map_eq_some_iff.mp found
    simp only [Prod.mk.injEq] at same
    obtain ⟨rfl, rfl⟩ := same
    exact ⟨by simp, by simpa using enclosedMarker?_append deeper⟩
  · obtain ⟨⟨inner, tail⟩, deeper, same⟩ := Option.map_eq_some_iff.mp found
    simp only [Prod.mk.injEq] at same
    obtain ⟨rfl, rfl⟩ := same
    exact ⟨by simp, by simpa using enclosedMarker?_append deeper⟩
  · simp at found

/-- What follows a marker is shorter than the text it was found in. -/
theorem marker?_shorter {previous : Option Char} {text marker after : Text}
    (found : marker? previous text = some (marker, after)) : after.length < text.length := by
  -- The marker takes at least one character away.
  have parts := marker?_append found
  have taken := List.length_pos_iff.mpr parts.1
  have whole := congrArg List.length parts.2
  simp only [List.length_append] at whole
  omega

/-- A stretch of a text as the search for markers sees it. -/
inductive BindItem where
  /-- A literal span, in which no marker is looked for. -/
  | literal (piece : Piece)
  /-- A marker. -/
  | marker (text : Text)
  /-- A character at which neither begins. -/
  | plain (c : Char)
  deriving DecidableEq

/-- The characters of a stretch. -/
def BindItem.text : BindItem → Text
  | literal piece => piece.text
  | marker text => text
  | plain c => [c]

/--
The stretches of a text, given the character in front of it.

A literal span is taken as a whole, so that markers inside it are left alone.
-/
def bindItems (previous : Option Char) (text : Text) : List BindItem :=
  match text with
  | [] => []
  | c :: rest =>
    match _ : literal? (c :: rest) with
    | some (piece, after) => .literal piece :: bindItems piece.text.getLast? after
    | none =>
      match _ : marker? previous (c :: rest) with
      | some (marker, after) => .marker marker :: bindItems marker.getLast? after
      | none => .plain c :: bindItems (some c) rest
termination_by text.length
decreasing_by
  · exact literal?_shorter ‹_›
  · exact marker?_shorter ‹_›
  · simp

/-- The byte ranges of the markers among stretches that begin at an offset. -/
def markerRanges : (offset : Nat) → List BindItem → List ByteRange
  | _, [] => []
  | offset, .marker text :: items =>
    ⟨offset, offset + text.byteLength⟩ :: markerRanges (offset + text.byteLength) items
  -- Every other stretch only moves the offset on.
  | offset, item :: items => markerRanges (offset + item.text.byteLength) items

end SqlLayout
