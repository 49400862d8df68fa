import SqlLayout.Bind.Marker

/-! The search for bind markers, which goes through a text byte by byte. -/

namespace SqlLayout

/-- The bytes of a text in UTF-8. -/
def Text.bytes (text : Text) : List UInt8 :=
  -- A byte below 128 is a character of its own, and never part of another one.
  text.flatMap String.utf8EncodeChar

/-- The bytes of ASCII letters and digits. -/
def isAlphanumByte (b : UInt8) : Bool :=
  -- No byte of a character beyond ASCII is among them.
  ('0'.toUInt8 ≤ b && b ≤ '9'.toUInt8) || ('A'.toUInt8 ≤ b && b ≤ 'Z'.toUInt8) ||
    ('a'.toUInt8 ≤ b && b ≤ 'z'.toUInt8)

/-- The bytes of a marker's name. -/
def isMarkerByte (b : UInt8) : Bool :=
  isAlphanumByte b || b == '_'.toUInt8 || b == '.'.toUInt8

/-- The bytes behind which a colon begins no marker. -/
def gluesColonByte (b : UInt8) : Bool :=
  -- Behind a word a colon belongs to the word, and a doubled colon is a cast.
  isAlphanumByte b || b == '_'.toUInt8 || b == '$'.toUInt8 || b == ':'.toUInt8

/-- The number of bytes of the name that some bytes begin with. -/
def nameSize (bytes : List UInt8) : Nat :=
  (bytes.takeWhile isMarkerByte).length

/-- The number of bytes in front of the first place where a word stands. -/
def findBytes? (word : List UInt8) : List UInt8 → Option Nat
  | [] => none
  | b :: rest =>
    if word.isPrefixOf (b :: rest) then some 0 else (findBytes? word rest).map (· + 1)

/--
The number of bytes up to the end of a quoted span, counted from behind the opening quote.

A doubled quote is part of the span.
A span without a closing quote has no end.
-/
def quotedSize? (quote : UInt8) : List UInt8 → Option Nat
  | [] => none
  | b :: rest =>
    if b = quote then
      match rest with
      | [] => some 1
      | d :: rest =>
        -- A quote right behind a quote is read together with it.
        if d = quote then (quotedSize? quote rest).map (· + 2) else some 1
    else (quotedSize? quote rest).map (· + 1)

/-- The number of bytes of the literal span that some bytes begin with. -/
def spanSize? : List UInt8 → Option Nat
  | [] => none
  | b :: rest =>
    if b = '\''.toUInt8 ∨ b = '"'.toUInt8 then (quotedSize? b rest).map (· + 1)
    else if b = '/'.toUInt8 ∧ rest.head? = some '*'.toUInt8 then
      -- The star that opens the span does not close it too.
      (findBytes? ['*'.toUInt8, '/'.toUInt8] rest.tail).map (· + 4)
    else if b = '\x7b'.toUInt8 then (findBytes? ['\x7d'.toUInt8] rest).map (· + 2)
    else none

/-- The number of bytes of the rest of a marker behind its colon. -/
def colonSize? : List UInt8 → Option Nat
  | [] => none
  | b :: rest =>
    if b = '\x7b'.toUInt8 then
      (findBytes? ['\x7d'.toUInt8] rest).bind fun close =>
        -- Between the braces there is a name and nothing else.
        if close ≠ 0 ∧ (rest.take close).all isMarkerByte then some (close + 2) else none
    else if b = '['.toUInt8 then
      (findBytes? [']'.toUInt8] rest).bind fun close =>
        -- The tag may hold anything, but a name has to follow it.
        if nameSize (rest.drop (close + 1)) = 0 then none
        else some (close + 2 + nameSize (rest.drop (close + 1)))
    else if isMarkerByte b then some (nameSize (b :: rest))
    else none

/-- The number of bytes of the rest of a marker behind the sign that encloses its name. -/
def enclosedSize? (sign : UInt8) (bytes : List UInt8) : Option Nat :=
  -- The same sign closes the marker right behind its name.
  if nameSize bytes ≠ 0 ∧ bytes[nameSize bytes]? = some sign then some (nameSize bytes + 1)
  else none

/-- The number of bytes of the marker that some bytes begin with, given the byte in front. -/
def markerSize? (previous : Option UInt8) : List UInt8 → Option Nat
  | [] => none
  | b :: rest =>
    if b = ':'.toUInt8 then
      if previous.any gluesColonByte then none else (colonSize? rest).map (· + 1)
    else if b = '#'.toUInt8 ∨ b = '&'.toUInt8 then (enclosedSize? b rest).map (· + 1)
    else none

/-- What the search for markers comes upon. -/
inductive Hit where
  /-- A literal span, in which no marker is looked for. -/
  | span (range : ByteRange)
  /-- A marker. -/
  | marker (range : ByteRange)
  deriving DecidableEq

/--
What the search comes upon in the bytes from an offset on, given the byte in front of them.

A literal span is passed as a whole, so that markers inside it are left alone.
-/
def hits (offset : Nat) (previous : Option UInt8) (bytes : List UInt8) : List Hit :=
  match bytes with
  | [] => []
  | b :: rest =>
    match spanSize? (b :: rest) with
    | some size =>
      .span ⟨offset, offset + size⟩ ::
        hits (offset + size) ((b :: rest).take size).getLast? (rest.drop (size - 1))
    | none =>
      match markerSize? previous (b :: rest) with
      | some size =>
        .marker ⟨offset, offset + size⟩ ::
          hits (offset + size) ((b :: rest).take size).getLast? (rest.drop (size - 1))
      | none => hits (offset + 1) (some b) rest
termination_by bytes.length
decreasing_by
  · simp only [List.length_drop, List.length_cons]; omega
  · simp only [List.length_drop, List.length_cons]; omega
  · simp

/-- The range of a marker, if it is one that the search came upon. -/
def Hit.marker? : Hit → Option ByteRange
  | marker range => some range
  | span _ => none

/-- The range of a literal span, if it is one that the search came upon. -/
def Hit.span? : Hit → Option ByteRange
  | span range => some range
  | marker _ => none

/-- The markers of a text. -/
def markers (sql : Text) : List ByteRange :=
  -- Nothing stands in front of the first byte.
  (hits 0 none sql.bytes).filterMap Hit.marker?

end SqlLayout
