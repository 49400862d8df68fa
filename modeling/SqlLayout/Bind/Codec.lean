import SqlLayout.Bind.Search
import SqlLayout.Token

/-! Hiding bind markers behind made-up names while a text is lexed, and putting them back. -/

namespace SqlLayout

/-- A way to recognise bind markers. -/
structure BindSyntax where
  /-- The name the syntax is reported under. -/
  name : String
  /-- The markers of a text, as byte ranges. -/
  find : Text → List ByteRange

/-- The syntax of colon, hash and ampersand markers. -/
def BindSyntax.generic : BindSyntax :=
  -- The one syntax that is always at hand.
  { name := "generic", find := markers }

/--
A text cut at its markers.

Each segment is the text in front of a marker and the marker itself.
-/
structure BindCut where
  /-- The markers, each with the text between it and the marker before. -/
  segments : List (Text × Text)
  /-- The text behind the last marker. -/
  tail : Text

namespace BindCut

/-- A cut with one more marker in front. -/
def cons (before marker : Text) (cut : BindCut) : BindCut :=
  -- What follows keeps its order.
  { cut with segments := (before, marker) :: cut.segments }

/-- The made-up name that stands for the marker with a given number. -/
def code (number : Nat) : Text :=
  -- Markers are numbered from zero in the order of the text.
  "___BIND".toList ++ Nat.toDigits 10 number

/-- The text of a list of segments with made-up names for markers, counted from a number. -/
def encodeFrom : (number : Nat) → (segments : List (Text × Text)) → (tail : Text) → Text
  | _, [], tail => tail
  | number, (before, _) :: segments, tail =>
    before ++ code number ++ encodeFrom (number + 1) segments tail

/-- The text with a made-up name in the place of every marker. -/
def encoded (cut : BindCut) : Text :=
  -- The text between the markers is kept as it is.
  encodeFrom 0 cut.segments cut.tail

/-- The markers, in the order of the text. -/
def markers (cut : BindCut) : List Text :=
  -- The marker with number zero comes first.
  cut.segments.map Prod.snd

end BindCut

/--
A text cut at the ranges that can be used, from left to right.

The text begins at the offset, behind the last range used.
A range that begins earlier, is empty, leaves the text or divides a character is skipped.
-/
def cutAt : (offset : Nat) → (ranges : List ByteRange) → (text : Text) → BindCut
  | _, [], text => ⟨[], text⟩
  | offset, range :: ranges, text =>
    if range.start < offset ∨ range.stop ≤ range.start then cutAt offset ranges text
    else
      match text.splitBytes? (range.start - offset) with
      | none => cutAt offset ranges text
      | some (before, rest) =>
        match rest.splitBytes? (range.stop - range.start) with
        | none => cutAt offset ranges text
        | some (marker, rest) => (cutAt range.stop ranges rest).cons before marker

/-- A text cut at the markers that a syntax finds in it. -/
def BindSyntax.cut (style : BindSyntax) (sql : Text) : BindCut :=
  -- The first range may begin at the start of the text.
  cutAt 0 (style.find sql) sql

/-- The markers of a text, by the made-up name that stands for each. -/
structure Codec where
  /-- Each made-up name with its marker. -/
  entries : List (Text × Text)

namespace Codec

/-- The codec of a list of markers, numbered from zero. -/
def ofMarkers (found : List Text) : Codec :=
  -- The number of a marker is its place in the list.
  ⟨found.zipIdx.map fun (marker, number) => (BindCut.code number, marker)⟩

/-- The marker that a made-up name stands for. -/
def markerOf? (codec : Codec) (name : Text) : Option Text :=
  -- Only the exact name is known, in exactly its case.
  codec.entries.lookup name

/-- The number of markers. -/
def size (codec : Codec) : Nat :=
  -- Every marker has one entry.
  codec.entries.length

/-- A token with its marker put back, if its text is a made-up name. -/
def restore (codec : Codec) (token : Token) : Token :=
  -- Made-up names are names, so no other kind of token is touched.
  if token.kind = .name then
    match codec.markerOf? token.text with
    | some marker => { token with text := marker }
    | none => token
  else token

/-- A list of tokens with all markers put back. -/
def decode (codec : Codec) (tokens : List Token) : List Token :=
  -- Each token is looked up for itself.
  tokens.map codec.restore

end Codec

/-- The codec of a text cut at its markers. -/
def BindCut.codec (cut : BindCut) : Codec :=
  -- The made-up names are those of the encoded text.
  Codec.ofMarkers cut.markers

end SqlLayout
